import JavaSource.Proofs.Text.Identifier

namespace JavaSource.TypeRef

/-- How a name in the text of a type gets its package: from the package that is
    given with the text, from the table, or from the qualifier in front of its
    last dot. A qualifier that is empty counts as none. -/
inductive Resolves (table : WellKnown) (package : List Char) : List Char → String → String → Prop where
  | given {name : List Char} (hname : IsIdentifier name) (hpackage : ¬ Text.Blank package) :
      Resolves table package name (String.ofList (Text.trim package)) (String.ofList name)
  | listed {name : List Char} (hname : IsIdentifier name) (hpackage : Text.Blank package) :
      Resolves table package name ((table.package? (String.ofList name)).getD "") (String.ofList name)
  | leadingDot {name : List Char} (hname : IsIdentifier name) (hpackage : Text.Blank package) :
      Resolves table package ('.' :: name) ((table.package? (String.ofList name)).getD "")
        (String.ofList name)
  | qualified {qualifier name : List Char} (hname : IsIdentifier name) (hne : qualifier ≠ [])
      (hqualifier : IsQualifier qualifier) (hpackage : Text.Blank package) :
      Resolves table package (qualifier ++ '.' :: name) (String.ofList qualifier) (String.ofList name)

/-- The part of name resolution that is left once the characters are checked. -/
theorem resolve_of_isNameChar (table : WellKnown) (package raw : List Char) {base : List Char}
    (hne : base ≠ []) (hchars : ∀ c ∈ base, isNameChar c = true) :
    resolve table package raw base =
      if (Text.trim package).isEmpty then
        match (Text.splitLastDot base).getD ([], base) with
        | (qualifier, name) =>
          if name.isEmpty then .error (.blankName .type)
          else if qualifier.isEmpty then
            .ok ((table.package? (String.ofList name)).getD "", String.ofList name)
          else .ok (String.ofList qualifier, String.ofList name)
      else if '.' ∈ base then .error (.malformedType (String.ofList raw) .packageTwice)
      else .ok (String.ofList (Text.trim package), String.ofList base) := by
  have htrim : (Text.trim base).isEmpty = false := by
    rw [(trimmed_of_isNameChar hchars).trim_eq]
    simpa using hne
  have hfind : base.find? (! isNameChar ·) = none := by
    rw [List.find?_eq_none]
    intro c hc
    simp [hchars c hc]
  have hempty : base.isEmpty = false := by simpa using hne
  unfold resolve
  rw [htrim, hfind]
  by_cases hpackage : (Text.trim package).isEmpty = true
  · simp only [hpackage]
    rfl
  · by_cases hdot : '.' ∈ base
    · simp [hpackage, hdot, throw, throwThe, MonadExceptOf.throw, bind, Except.bind]
    · simp [hpackage, hdot, hempty, bind, Except.bind, pure, Except.pure]

/-- A blank name is an error of its own. -/
theorem resolve_of_trim_eq_nil (table : WellKnown) (package raw : List Char) {base : List Char}
    (h : Text.trim base = []) : resolve table package raw base = .error (.blankName .type) := by
  unfold resolve
  rw [h]
  rfl

/-- A name with any other character is malformed. -/
theorem resolve_of_find? (table : WellKnown) (package raw : List Char) {base : List Char} {c : Char}
    (hne : Text.trim base ≠ []) (hfind : base.find? (! isNameChar ·) = some c) :
    resolve table package raw base = .error (.malformedType (String.ofList raw) (.unexpected c)) := by
  have htrim : (Text.trim base).isEmpty = false := by simpa using hne
  unfold resolve
  rw [htrim, hfind]
  rfl

/-- A name is blank, or it has another character, or its checks are left to its dots. -/
theorem name_cases (base : List Char) :
    Text.trim base = [] ∨ (∃ c, Text.trim base ≠ [] ∧ base.find? (! isNameChar ·) = some c) ∨
      (base ≠ [] ∧ ∀ c ∈ base, isNameChar c = true) := by
  by_cases htrim : Text.trim base = []
  · exact .inl htrim
  · cases hfind : base.find? (! isNameChar ·) with
    | some c => exact .inr (.inl ⟨c, htrim, rfl⟩)
    | none =>
      refine .inr (.inr ⟨?_, by simpa using hfind⟩)
      rintro rfl
      exact htrim rfl

private theorem isNameChar_of_resolve {table : WellKnown} {package raw base : List Char}
    {resolved : String × String} (h : resolve table package raw base = .ok resolved) :
    base ≠ [] ∧ ∀ c ∈ base, isNameChar c = true := by
  obtain htrim | ⟨c, hne, hfind⟩ | hname := name_cases base
  · rw [resolve_of_trim_eq_nil table package raw htrim] at h
    cases h
  · rw [resolve_of_find? table package raw hne hfind] at h
    cases h
  · exact hname

private theorem resolves_of_resolve_eq_ok {table : WellKnown} {package raw base : List Char}
    {p n : String} (h : resolve table package raw base = .ok (p, n)) : Resolves table package base p n := by
  obtain ⟨hne, hchars⟩ := isNameChar_of_resolve h
  rw [resolve_of_isNameChar table package raw hne hchars] at h
  split at h
  · next hpackage =>
    -- No package is given, so one may be written in front of the last dot.
    have hblank : Text.Blank package := Text.trim_eq_nil_iff.mp (List.isEmpty_iff.mp hpackage)
    cases hsplit : Text.splitLastDot base with
    | none =>
      have hdot := Text.splitLastDot_eq_none_iff.mp hsplit
      have hname := IsIdentifier.of_isNameChar hne hchars hdot
      have hempty : base.isEmpty = false := by simpa using hne
      simp only [hsplit, Option.getD_none, hempty] at h
      obtain ⟨rfl, rfl⟩ := Prod.mk.inj (Except.ok.inj h)
      exact .listed hname hblank
    | some parts =>
      obtain ⟨qualifier, name⟩ := parts
      obtain ⟨rfl, hdot⟩ := Text.splitLastDot_eq_some_iff.mp hsplit
      simp only [hsplit, Option.getD_some] at h
      split at h
      · cases h
      · next hname =>
        have hidentifier : IsIdentifier name := by
          refine .of_isNameChar (by simpa using hname) ?_ hdot
          intro c hc
          exact hchars c (by simp [hc])
        split at h
        · next hqualifier =>
          obtain rfl := List.isEmpty_iff.mp hqualifier
          obtain ⟨rfl, rfl⟩ := Prod.mk.inj (Except.ok.inj h)
          exact .leadingDot hidentifier hblank
        · next hqualifier =>
          obtain ⟨rfl, rfl⟩ := Prod.mk.inj (Except.ok.inj h)
          refine .qualified hidentifier (by simpa using hqualifier) ?_ hblank
          intro c hc
          exact isNameChar_iff.mp (hchars c (by simp [hc]))
  · next hpackage =>
    split at h
    · cases h
    · next hdot =>
      obtain ⟨rfl, rfl⟩ := Prod.mk.inj (Except.ok.inj h)
      refine .given (.of_isNameChar hne hchars hdot) ?_
      intro hblank
      exact hpackage (List.isEmpty_iff.mpr (Text.trim_eq_nil_iff.mpr hblank))

/-- A qualified name has the characters of names only. -/
theorem isNameChar_of_mem_qualified {qualifier name : List Char} (hqualifier : IsQualifier qualifier)
    (hname : IsIdentifier name) : ∀ c ∈ qualifier ++ '.' :: name, isNameChar c = true := by
  intro c hc
  rcases List.mem_append.mp hc with hc | hc
  · exact hqualifier.isNameChar c hc
  · rcases List.mem_cons.mp hc with rfl | hc
    · exact isNameChar_iff.mpr (.inr rfl)
    · exact hname.isNameChar c hc

private theorem splitLastDot_qualified (qualifier : List Char) {name : List Char}
    (hname : IsIdentifier name) :
    Text.splitLastDot (qualifier ++ '.' :: name) = some (qualifier, name) :=
  Text.splitLastDot_eq_some_iff.mpr ⟨rfl, hname.dot_notMem⟩

private theorem isEmpty_trim_of_blank {package : List Char} (h : Text.Blank package) :
    (Text.trim package).isEmpty = true :=
  List.isEmpty_iff.mpr (Text.trim_eq_nil_iff.mpr h)

private theorem Resolves.resolve_eq_ok {table : WellKnown} {package base : List Char} {p n : String}
    (h : Resolves table package base p n) (raw : List Char) :
    resolve table package raw base = .ok (p, n) := by
  cases h with
  | given hname hpackage =>
    have hfull : (Text.trim package).isEmpty = false := by
      simpa [Text.trim_eq_nil_iff] using hpackage
    rw [resolve_of_isNameChar table package raw hname.ne_nil hname.isNameChar, hfull]
    simp [hname.dot_notMem]
  | listed hname hpackage =>
    have hnone := Text.splitLastDot_eq_none_iff.mpr hname.dot_notMem
    rw [resolve_of_isNameChar table package raw hname.ne_nil hname.isNameChar,
      isEmpty_trim_of_blank hpackage, hnone]
    simp [hname.ne_nil]
  | @leadingDot name hname hpackage =>
    have hall : ∀ c ∈ '.' :: name, isNameChar c = true := isNameChar_of_mem_qualified IsQualifier.nil hname
    have hsplit : Text.splitLastDot ('.' :: name) = some ([], name) := splitLastDot_qualified [] hname
    rw [resolve_of_isNameChar table package raw (by simp) hall, isEmpty_trim_of_blank hpackage, hsplit]
    simp [hname.ne_nil]
  | @qualified qualifier name hname hne hqualifier hpackage =>
    rw [resolve_of_isNameChar table package raw (by simp) (isNameChar_of_mem_qualified hqualifier hname),
      isEmpty_trim_of_blank hpackage, splitLastDot_qualified qualifier hname]
    simp [hname.ne_nil, hne]

/-- Resolving a name gives the package and the simple name that it stands for, or
    fails. -/
theorem resolve_eq_ok_iff {table : WellKnown} {package raw base : List Char} {p n : String} :
    resolve table package raw base = .ok (p, n) ↔ Resolves table package base p n :=
  ⟨resolves_of_resolve_eq_ok, fun h => h.resolve_eq_ok raw⟩

/-- A simple name is an identifier. -/
theorem Resolves.isIdentifier {table : WellKnown} {package base : List Char} {p n : String}
    (h : Resolves table package base p n) : IsIdentifier n.toList := by
  cases h with
  | given hname _ | listed hname _ | leadingDot hname _ | qualified hname _ _ _ =>
    rwa [String.toList_ofList]

theorem Resolves.isNameChar {table : WellKnown} {package base : List Char} {p n : String}
    (h : Resolves table package base p n) :
    ∀ c ∈ base, isNameChar c = true := by
  cases h with
  | given hname _ | listed hname _ => exact hname.isNameChar
  | leadingDot hname _ => exact isNameChar_of_mem_qualified IsQualifier.nil hname
  | qualified hname _ hqualifier _ => exact isNameChar_of_mem_qualified hqualifier hname

/-- A name without dots has the package of the table, if no other one is given. -/
theorem Resolves.eq_listed {table : WellKnown} {package base : List Char} {p n : String}
    (h : Resolves table package base p n) (hbase : IsIdentifier base) (hpackage : Text.Blank package) :
    p = (table.package? (String.ofList base)).getD "" ∧ n = String.ofList base := by
  cases h with
  | given _ hother => exact absurd hpackage hother
  | listed => exact ⟨rfl, rfl⟩
  | leadingDot => exact absurd List.mem_cons_self hbase.dot_notMem
  | qualified => exact absurd (by simp) hbase.dot_notMem

/-- A name in the text of a type. Only where a qualifier is allowed does it
    have dots, and it never ends in one. -/
inductive IsTypeName : Bool → List Char → Prop where
  | simple {qualifiable : Bool} {name : List Char} (hname : IsIdentifier name) :
      IsTypeName qualifiable name
  | qualified {qualifier name : List Char} (hqualifier : IsQualifier qualifier)
      (hname : IsIdentifier name) : IsTypeName true (qualifier ++ '.' :: name)

theorem IsTypeName.ne_nil {qualifiable : Bool} {name : List Char} (h : IsTypeName qualifiable name) :
    name ≠ [] := by
  cases h with
  | simple hname => exact hname.ne_nil
  | qualified => simp

theorem IsTypeName.isNameChar {qualifiable : Bool} {name : List Char}
    (h : IsTypeName qualifiable name) : ∀ c ∈ name, isNameChar c = true := by
  cases h with
  | simple hname => exact hname.isNameChar
  | qualified hqualifier hname => exact isNameChar_of_mem_qualified hqualifier hname

/-- The names that the grammar allows are those that can be resolved. -/
theorem isTypeName_iff_exists_resolves (table : WellKnown) {package : String} {base : List Char} :
    IsTypeName (isBlank package) base ↔ ∃ p n, Resolves table package.toList base p n := by
  constructor
  · intro h
    generalize hblank : isBlank package = qualifiable at h
    cases h with
    | simple hname =>
      by_cases hpackage : Text.Blank package.toList
      · exact ⟨_, _, .listed hname hpackage⟩
      · exact ⟨_, _, .given hname hpackage⟩
    | @qualified qualifier name hqualifier hname =>
      have hpackage := isBlank_iff_blank.mp hblank
      by_cases hnil : qualifier = []
      · subst hnil
        exact ⟨_, _, .leadingDot hname hpackage⟩
      · exact ⟨_, _, .qualified hname hnil hqualifier hpackage⟩
  · rintro ⟨p, n, h⟩
    cases h with
    | given hname hpackage => exact .simple hname
    | listed hname hpackage => exact .simple hname
    | leadingDot hname hpackage =>
      rw [isBlank_iff_blank.mpr hpackage]
      exact .qualified IsQualifier.nil hname
    | qualified hname hne hqualifier hpackage =>
      rw [isBlank_iff_blank.mpr hpackage]
      exact .qualified hqualifier hname

/-- Every name of a type is resolved, if it is not qualified where a package is
    given. -/
theorem IsTypeName.exists_resolves (table : WellKnown) {qualifiable : Bool} {name : List Char}
    (hname : IsTypeName qualifiable name) {package : String}
    (hpackage : qualifiable = true → isBlank package = true) :
    ∃ p n, Resolves table package.toList name p n := by
  apply (isTypeName_iff_exists_resolves table).mp
  cases hname with
  | simple hname => exact .simple hname
  | qualified hqualifier hname =>
    rw [hpackage rfl]
    exact .qualified hqualifier hname

end JavaSource.TypeRef
