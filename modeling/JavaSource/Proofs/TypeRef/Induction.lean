import JavaSource.Proofs.TypeRef.Reading

namespace JavaSource.TypeRef

/-- The bound of a wildcard is shorter than the wildcard. -/
private theorem length_subject_lt {text rest subject : List Char} {bound : Bound}
    (htext : Text.trim text = '?' :: rest)
    (hbound : Text.trim rest = bound.keyword.toList ++ ' ' :: subject) :
    subject.length < text.length := by
  have hle := Text.length_trim_le text
  have hrest := Text.length_trim_le rest
  rw [htext, List.length_cons] at hle
  rw [hbound, List.length_append, List.length_cons] at hrest
  omega

/-- What holds of the text of an argument, as soon as it holds of the texts inside, holds
    of every text, whether or not it can be read. -/
@[elab_as_elim]
theorem argument_induction {motive : List Char → Prop}
    (typeVariable : ∀ {text}, isTypeVariable (Text.trim text) = true → motive text)
    (unbounded : ∀ {text rest}, Text.trim text = '?' :: rest → boundOf (Text.trim rest) = none → motive text)
    (bounded : ∀ {text rest subject} {bound : Bound}, Text.trim text = '?' :: rest →
      Text.trim rest = bound.keyword.toList ++ ' ' :: subject → motive subject → motive text)
    (plain : ∀ {text}, (Text.trim text).head? ≠ some '?' → isTypeVariable (Text.trim text) = false →
      (∀ parts, split (Text.trim text) = .ok parts → ∀ inner ∈ parts.arguments, motive inner) → motive text)
    (text : List Char) : motive text := by
  -- The induction is on the length: the arguments of a type and the bound of a wildcard are shorter.
  induction hlength : text.length using Nat.strong_induction_on generalizing text with
  | _ length ih =>
    subst hlength
    rcases argument_cases text with
      hvariable | ⟨rest, htext, hbound⟩ | ⟨rest, bound, subject, htext, hbound⟩ | ⟨hmark, hvariable⟩
    · exact typeVariable hvariable
    · exact unbounded htext hbound
    · exact bounded htext hbound (ih _ (length_subject_lt htext hbound) subject rfl)
    · refine plain hmark hvariable fun parts hsplit inner hinner => ?_
      have hlt := length_lt_of_mem_arguments hsplit hinner
      exact ih _ (Nat.lt_of_lt_of_le hlt (Text.length_trim_le text)) inner rfl

/-- What holds of each form of argument, as soon as it holds of the arguments and
    of the bound inside, holds of every argument that is read. The arguments of
    a declared type are shorter than its text, and so is the bound of a wildcard. -/
@[elab_as_elim]
theorem readArgument_induction {table : WellKnown}
    {motive : (text : List Char) → (argument : TypeArg) → readArgument table text = .ok argument → Prop}
    (unbounded : ∀ {text} (h : readArgument table text = .ok (.placeholder "?")),
      Text.trim text = ['?'] → motive text _ h)
    (typeVariable : ∀ {text}
      (h : readArgument table text = .ok (.placeholder (String.ofList (Text.trim text)))),
      isTypeVariable (Text.trim text) = true → motive text _ h)
    (native : ∀ {text}
      (h : readArgument table text = .ok (.type (.native (String.ofList (Text.trim text))))),
      (Text.trim text).head? ≠ some '?' →
      isNativeName (String.ofList (Text.trim text)) = true ∨ ['[', ']'] <:+ Text.trim text →
      motive text _ h)
    (declared : ∀ {text parts p n arguments}
      (h : readArgument table text =
        .ok (.type (.declared p n (arguments.mapIdx fun i argument => (slotKey i, argument))))),
      SplitsInto (Text.trim text) parts → Resolves table [] parts.base p n →
      List.Forall₂ (fun inner argument => ∃ hinner, motive inner argument hinner)
        parts.arguments arguments → motive text _ h)
    (wildcard : ∀ {text rest subject bound t} (h : readArgument table text = .ok (.wildcard bound t)),
      Text.trim text = '?' :: rest → Text.trim rest = bound.keyword.toList ++ ' ' :: subject →
      (∃ hsubject, motive subject (.type t) hsubject) → motive text _ h)
    (boundedByVariable : ∀ {text rest subject} {bound : Bound}
      (h : readArgument table text =
        .ok (.placeholder ("? " ++ bound.keyword ++ " " ++ String.ofList (Text.trim subject)))),
      Text.trim text = '?' :: rest → Text.trim rest = bound.keyword.toList ++ ' ' :: subject →
      isTypeVariable (Text.trim subject) = true → motive text _ h)
    {text : List Char} {argument : TypeArg} (h : readArgument table text = .ok argument) :
    motive text argument h := by
  induction hlength : text.length using Nat.strong_induction_on generalizing text argument with
  | _ length ih =>
    subst hlength
    have hread : ∀ inner argument, inner.length < text.length →
        ∀ hinner : readArgument table inner = .ok argument, motive inner argument hinner :=
      fun inner argument hlt hinner => ih _ hlt hinner rfl
    cases readArgument_eq_ok_iff.mp h with
    | unbounded htext => exact unbounded h htext
    | typeVariable hvariable => exact typeVariable h hvariable
    | native hmark _ hnative => exact native h hmark hnative
    | declared _ _ _ _ ht =>
      obtain ⟨parts, p, n, arguments, hsplit, hresolves, harguments, rfl⟩ := parse_eq_ok_iff.mp ht
      rw [String.toList_ofList, Text.trim_trim] at hsplit
      refine declared h hsplit hresolves ?_
      rw [List.forall₂_iff_zip] at harguments ⊢
      refine ⟨harguments.1, fun {inner argument} hmem => ?_⟩
      have hlt := length_lt_of_mem_arguments (split_eq_ok_iff.mpr hsplit) (List.of_mem_zip hmem).1
      exact ⟨harguments.2 hmem,
        hread _ _ (Nat.lt_of_lt_of_le hlt (Text.length_trim_le text)) (harguments.2 hmem)⟩
    | @wildcard rest subject bound t htext hbound ht =>
      exact wildcard h htext hbound ⟨ht, hread subject _ (length_subject_lt htext hbound) ht⟩
    | boundedByVariable htext hbound hvariable => exact boundedByVariable h htext hbound hvariable

end JavaSource.TypeRef
