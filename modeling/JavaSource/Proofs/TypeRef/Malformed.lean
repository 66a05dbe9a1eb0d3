import JavaSource.Proofs.TypeRef.Induction

namespace JavaSource

namespace Text

/-- A piece of a text without white space around it, as an error quotes it. -/
structure IsExcerpt (excerpt text : List Char) : Prop where
  trimmed : Trimmed excerpt
  isInfix : excerpt <:+: text

/-- A text without the white space around it is an excerpt. -/
theorem isExcerpt_trim (text : List Char) : IsExcerpt (trim text) text :=
  ⟨trimmed_trim text, trim_isInfix text⟩

/-- An excerpt of a part is an excerpt of the whole. -/
theorem IsExcerpt.of_isInfix {excerpt inner text : List Char} (h : IsExcerpt excerpt inner)
    (hinner : inner <:+: text) : IsExcerpt excerpt text :=
  ⟨h.trimmed, h.isInfix.trans hinner⟩

/-- Each of the pieces that a text is joined from is a part of it. -/
theorem isInfix_intercalate (separator : List Char) {pieces : List (List Char)} {piece : List Char}
    (h : piece ∈ pieces) : piece <:+: separator.intercalate pieces := by
  induction pieces with
  | nil => cases h
  | cons first more ih =>
    cases more with
    | nil =>
      obtain rfl := List.mem_singleton.mp h
      exact ⟨[], [], by simp⟩
    | cons second more =>
      rw [List.intercalate_cons_cons]
      rcases List.mem_cons.mp h with rfl | h
      · rw [List.append_assoc]
        exact (List.prefix_append _ _).isInfix
      · exact (ih h).trans (List.suffix_append _ _).isInfix

end Text

namespace TypeRef

open Text (IsExcerpt)

/-- The arguments are quoted from the text that they are taken from. -/
theorem SplitsInto.isInfix {raw : List Char} {parts : Split} (h : SplitsInto raw parts) :
    ∀ argument ∈ parts.arguments, argument <:+: raw := by
  cases h with
  | plain => exact nofun
  | @grouped front pieces _ _ _ _ hraw =>
    rw [List.forall_mem_map, hraw]
    intro piece hpiece
    have hinside := (Text.trim_isInfix piece).trans (Text.isInfix_intercalate [','] hpiece)
    have hgroup : [','].intercalate pieces <:+: front ++ '<' :: ([','].intercalate pieces ++ ['>']) :=
      ⟨front ++ ['<'], ['>'], by simp⟩
    exact hinside.trans hgroup

/-- The bound of a wildcard is quoted from the wildcard. -/
theorem isInfix_subject {text rest subject : List Char} {bound : Bound}
    (htext : Text.trim text = '?' :: rest)
    (hbound : Text.trim rest = bound.keyword.toList ++ ' ' :: subject) : subject <:+: text := by
  have hrest : rest <:+: text := by
    refine List.IsInfix.trans ?_ (Text.trim_isInfix text)
    rw [htext]
    exact (List.suffix_cons '?' rest).isInfix
  have hsubject : subject <:+: Text.trim rest := by
    rw [hbound, List.append_cons]
    exact (List.suffix_append _ subject).isInfix
  exact (hsubject.trans (Text.trim_isInfix rest)).trans hrest

/-- A name is quoted in an error with the whole text of its type. -/
theorem eq_of_resolve_eq_malformed {table : WellKnown} {package raw base : List Char} {quoted : String}
    {reason : Malformation}
    (h : resolve table package raw base = .error (.malformedType quoted reason)) :
    quoted = String.ofList raw := by
  obtain htrim | ⟨c, hne, hfind⟩ | ⟨hne, hchars⟩ := name_cases base
  · rw [resolve_of_trim_eq_nil table package raw htrim] at h
    cases h
  · rw [resolve_of_find? table package raw hne hfind] at h
    cases h
    rfl
  · rw [resolve_of_isNameChar table package raw hne hchars] at h
    split at h
    · -- Without a package the only fault left is a name that ends in a dot, and it is blank.
      dsimp only at h
      split at h
      · cases h
      · split at h <;> cases h
    · split at h
      · cases h
        rfl
      · cases h

/-- The order of the checks: the punctuation, the name, then the arguments from left to
    right. -/
theorem parse_eq_error_iff {table : WellKnown} {package raw : String} {error : Error} :
    parse table package raw = .error error ↔
      (∃ reason, split (Text.trim raw.toList) = .error reason ∧
        error = .malformedType (trimmed raw) reason) ∨
      ∃ parts, split (Text.trim raw.toList) = .ok parts ∧
        (resolve table package.toList (Text.trim raw.toList) parts.base = .error error ∨
          (∃ p n, resolve table package.toList (Text.trim raw.toList) parts.base = .ok (p, n)) ∧
            parts.arguments.mapM (readArgument table) = .error error) := by
  rw [parse, readDeclared_eq]
  cases split (Text.trim raw.toList) with
  | error reason => simp [trimmed, eq_comm]
  | ok parts =>
    cases hresolve : resolve table package.toList (Text.trim raw.toList) parts.base with
    | error failure => simp [hresolve, bind, Except.bind]
    | ok resolved =>
      obtain ⟨p, n⟩ := resolved
      cases hread : parts.arguments.mapM (readArgument table) with
      | error failure => simp [hresolve, hread, bind, Except.bind]
      | ok arguments => simp [hresolve, hread, bind, Except.bind, pure, Except.pure]

/-- A malformed type is quoted as a whole, or the error is that of one of its arguments. -/
theorem malformed_of_parse {table : WellKnown} {package raw quoted : String} {reason : Malformation}
    (h : parse table package raw = .error (.malformedType quoted reason)) :
    quoted = trimmed raw ∨ ∃ parts, split (Text.trim raw.toList) = .ok parts ∧
      ∃ argument ∈ parts.arguments, readArgument table argument = .error (.malformedType quoted reason) := by
  rcases parse_eq_error_iff.mp h with ⟨_, _, herror⟩ | ⟨parts, hsplit, hresolve | ⟨_, hread⟩⟩
  · cases herror
    exact .inl rfl
  · exact .inl (eq_of_resolve_eq_malformed hresolve)
  · obtain ⟨before, argument, after, harguments, _, hargument⟩ := mapM_eq_error_iff.mp hread
    exact .inr ⟨parts, hsplit, argument, by simp [harguments], hargument⟩

/-- An error about a text that quotes an excerpt of it, and that reading the excerpt on its
    own gives again. -/
structure Quotes (table : WellKnown) (text : List Char) (quoted : String) (reason : Malformation) :
    Prop where
  isExcerpt : IsExcerpt quoted.toList text
  again : readArgument table quoted.toList = .error (.malformedType quoted reason)

/-- What quotes a part quotes the whole. -/
theorem Quotes.of_isInfix {table : WellKnown} {inner text : List Char} {quoted : String}
    {reason : Malformation} (h : Quotes table inner quoted reason) (hinner : inner <:+: text) :
    Quotes table text quoted reason :=
  ⟨h.isExcerpt.of_isInfix hinner, h.again⟩

/-- White space around an argument does not count, so an argument that is quoted as a whole
    is refused again. -/
private theorem quotes_trim {table : WellKnown} {text : List Char} {reason : Malformation}
    (h : readArgument table text = .error (.malformedType (String.ofList (Text.trim text)) reason)) :
    Quotes table text (String.ofList (Text.trim text)) reason := by
  refine ⟨?_, ?_⟩
  · rw [String.toList_ofList]
    exact Text.isExcerpt_trim text
  · rw [String.toList_ofList, readArgument_trim]
    exact h

/-- An argument that is malformed is reported with a quote of its text. -/
theorem quotes_of_readArgument {table : WellKnown} {text : List Char} {quoted : String}
    {reason : Malformation} (h : readArgument table text = .error (.malformedType quoted reason)) :
    Quotes table text quoted reason := by
  induction text using argument_induction with
  | typeVariable hvariable =>
    rw [readArgument_of_isTypeVariable table hvariable] at h
    cases h
  | unbounded htext hbound =>
    have hread := h
    rw [readArgument_unbounded table htext hbound, ← htext] at hread
    split at hread
    · cases hread
    · cases hread
      exact quotes_trim h
  | @bounded text rest subject bound htext hbound ih =>
    have hread := h
    rw [readArgument_bounded table htext hbound, ← htext] at hread
    split at hread
    · next hsubject =>
      cases hread
      exact (ih hsubject).of_isInfix (isInfix_subject htext hbound)
    · cases hread
    · split at hread
      · cases hread
      · cases hread
        exact quotes_trim h
  | @plain text hmark hvariable ih =>
    have hread := h
    rw [readArgument_plain table hmark hvariable] at hread
    split at hread
    · cases hread
    · cases hparse : parse table "" (String.ofList (Text.trim text)) with
      | ok t =>
        rw [hparse] at hread
        cases hread
      | error failure =>
        rw [hparse] at hread
        obtain rfl := Except.error.inj hread
        -- The type itself is malformed, or an argument in it is, which is a part of this text.
        rcases malformed_of_parse hparse with hquoted | ⟨parts, hsplit, argument, hargument, hinner⟩
        · rw [trimmed, String.toList_ofList, Text.trim_trim] at hquoted
          subst hquoted
          exact quotes_trim h
        · rw [String.toList_ofList, Text.trim_trim] at hsplit
          have hinside := (split_eq_ok_iff.mp hsplit).isInfix argument hargument
          exact (ih parts hsplit argument hargument hinner).of_isInfix
            (hinside.trans (Text.trim_isInfix text))

/-- A malformation is reported with the excerpt of the text that has it. The excerpt is the
    whole text, or an argument that is refused in the same way when it is read on its own. Once
    the punctuation and the name of a type are accepted, the leftmost argument that is refused
    decides on the error. -/
theorem malformed_quotes_excerpt (table : WellKnown) :
    (∀ {package raw quoted : String} {reason : Malformation},
      parse table package raw = .error (.malformedType quoted reason) →
        IsExcerpt quoted.toList raw.toList ∧
          (quoted = trimmed raw ∨ TypeArg.parse table quoted = .error (.malformedType quoted reason))) ∧
    (∀ {text quoted : String} {reason : Malformation},
      TypeArg.parse table text = .error (.malformedType quoted reason) →
        IsExcerpt quoted.toList text.toList ∧
          TypeArg.parse table quoted = .error (.malformedType quoted reason)) ∧
    ∀ {package raw : String} {parts : Split} {p n : String},
      split (Text.trim raw.toList) = .ok parts →
      resolve table package.toList (Text.trim raw.toList) parts.base = .ok (p, n) →
        ∀ error, parse table package raw = .error error ↔
          ∃ before argument after, parts.arguments = before ++ argument :: after ∧
            (∀ earlier ∈ before, ∃ a, readArgument table earlier = .ok a) ∧
            readArgument table argument = .error error := by
  refine ⟨fun {package raw quoted reason} h => ?_, fun {text quoted reason} h => ?_,
    fun {package raw parts p n} hsplit hresolve error => ?_⟩
  · rcases malformed_of_parse h with rfl | ⟨parts, hsplit, argument, hargument, hinner⟩
    · rw [trimmed, String.toList_ofList]
      exact ⟨Text.isExcerpt_trim raw.toList, .inl rfl⟩
    · have hquotes := quotes_of_readArgument hinner
      have hinside := (split_eq_ok_iff.mp hsplit).isInfix argument hargument
      exact ⟨hquotes.isExcerpt.of_isInfix (hinside.trans (Text.trim_isInfix _)), .inr hquotes.again⟩
  · have hquotes := quotes_of_readArgument h
    exact ⟨hquotes.isExcerpt, hquotes.again⟩
  · rw [parse_eq_error_iff, hsplit, ← mapM_eq_error_iff]
    simp [hresolve]

/-- The text of a map in which a wildcard bounds a wildcard, two brackets deep. -/
def mapOfNested : String := " Map<K ,List< ? extends ?super X>>"

/-- The error quotes the outer wildcard alone, without the map and the list around it. -/
theorem malformed_quotes_excerpt_nested :
    (parse .standard "" mapOfNested = .error (.malformedType "? extends ?super X" .nestedWildcard) ∧
      IsExcerpt "? extends ?super X".toList mapOfNested.toList) ∧
    (TypeArg.parse .standard "List< ? extends ?super X>" =
        .error (.malformedType "? extends ?super X" .nestedWildcard) ∧
      TypeArg.parse .standard "? extends ?super X" =
        .error (.malformedType "? extends ?super X" .nestedWildcard)) ∧
    ∃ before argument after,
      ["K".toList, "List< ? extends ?super X>".toList] = before ++ argument :: after ∧
        (∀ earlier ∈ before, ∃ a, readArgument .standard earlier = .ok a) ∧
        readArgument .standard argument = .error (.malformedType "? extends ?super X" .nestedWildcard) := by
  obtain ⟨htype, hargument, hleftmost⟩ := malformed_quotes_excerpt .standard
  have hparse : parse .standard "" mapOfNested =
      .error (.malformedType "? extends ?super X" .nestedWildcard) := by decide +kernel
  have hlist : TypeArg.parse .standard "List< ? extends ?super X>" =
      .error (.malformedType "? extends ?super X" .nestedWildcard) := by decide +kernel
  have hsplit : split (Text.trim mapOfNested.toList) =
      .ok ⟨"Map".toList, ["K".toList, "List< ? extends ?super X>".toList]⟩ := by decide +kernel
  have hresolve : resolve .standard "".toList (Text.trim mapOfNested.toList) "Map".toList =
      .ok ("java.util", "Map") := by decide +kernel
  exact ⟨⟨hparse, (htype hparse).1⟩, ⟨hlist, (hargument hlist).2⟩,
    (hleftmost hsplit hresolve _).mp hparse⟩

end TypeRef

end JavaSource
