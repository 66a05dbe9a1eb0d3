import JavaSource.Proofs.TypeRef.Induction

namespace JavaSource.TypeRef

/-- An array type as an argument, which is taken as it is. -/
structure IsArrayText (text : List Char) : Prop where
  trimmed : Text.Trimmed text
  array : ['[', ']'] <:+ text
  mark : text.head? ≠ some '?'
  piece : IsPiece 0 text

/-- The categories of the grammar of types. A type is `qualifiable` if its own
    name may have dots. -/
inductive Category where
  | type (qualifiable : Bool)
  | arguments
  | argument
  | bound

/-- The grammar of types. White space is allowed around arguments and bounds,
    in front of an opening bracket and behind a question mark. -/
inductive Derives : Category → List Char → Prop where
  | name {qualifiable : Bool} {name : List Char} (hname : IsTypeName qualifiable name) :
      Derives (.type qualifiable) name
  | generic {qualifiable : Bool} {name gap inside : List Char} (hname : IsTypeName qualifiable name)
      (hgap : Text.Blank gap) (hinside : Derives .arguments inside) :
      Derives (.type qualifiable) (name ++ gap ++ '<' :: (inside ++ ['>']))
  | last {text : List Char} (htext : Derives .argument text) : Derives .arguments text
  | more {text rest : List Char} (htext : Derives .argument text) (hrest : Derives .arguments rest) :
      Derives .arguments (text ++ ',' :: rest)
  | unbounded {left right : List Char} (hleft : Text.Blank left) (hright : Text.Blank right) :
      Derives .argument (left ++ '?' :: right)
  | bounded {left gap text : List Char} (side : Bound) (hleft : Text.Blank left)
      (hgap : Text.Blank gap) (htext : Derives .bound text) :
      Derives .argument (left ++ '?' :: (gap ++ side.keyword.toList ++ ' ' :: text))
  | plain {text : List Char} (htext : Derives .bound text) : Derives .argument text
  | typeVariable {left digits right : List Char} {letter : Char} (hleft : Text.Blank left)
      (hletter : letter.isUpper = true) (hdigits : ∀ c ∈ digits, c.isDigit = true)
      (hright : Text.Blank right) : Derives .bound (left ++ letter :: digits ++ right)
  | native {left right : List Char} {name : String} (hleft : Text.Blank left)
      (hname : isNativeName name = true) (hright : Text.Blank right) :
      Derives .bound (left ++ name.toList ++ right)
  | array {left text right : List Char} (hleft : Text.Blank left) (htext : IsArrayText text)
      (hright : Text.Blank right) : Derives .bound (left ++ text ++ right)
  | type {left text right : List Char} (hleft : Text.Blank left) (htext : Derives (.type true) text)
      (hright : Text.Blank right) : Derives .bound (left ++ text ++ right)

theorem IsArrayText.ne_nil {text : List Char} (h : IsArrayText text) : text ≠ [] := by
  rintro rfl
  obtain ⟨front, hfront⟩ := h.array
  simp at hfront

/-- Native names have letters only. -/
theorem isIdentifier_of_isNativeName {name : String} (h : isNativeName name = true) :
    IsIdentifier name.toList := by
  have hall : ∀ native ∈ nativeNames,
      native.toList ≠ [] ∧ native.toList.all Text.isAlphanumeric = true := by decide +kernel
  obtain ⟨hne, hchars⟩ := hall name (List.contains_iff_mem.mp h)
  exact ⟨hne, fun c hc => .inl (List.all_eq_true.mp hchars c hc)⟩

/-- A letter and digits make an identifier. -/
theorem isIdentifier_of_isTypeVariable {letter : Char} {digits : List Char}
    (hletter : letter.isUpper = true) (hdigits : ∀ c ∈ digits, c.isDigit = true) :
    IsIdentifier (letter :: digits) := by
  refine ⟨by simp, ?_⟩
  intro c hc
  rcases List.mem_cons.mp hc with rfl | hc
  · exact .inl (Text.isAlphanumeric_of_isUpper hletter)
  · exact .inl (Text.isAlphanumeric_of_isDigit (hdigits c hc))

private theorem keyword_isPiece (side : Bound) : IsPiece 0 (side.keyword.toList ++ [' ']) :=
  (isPiece_of_isNameChar (isNameChar_keyword side)).append (.of_blank .space)

/-- A wildcard without a bound is a piece. -/
theorem mark_isPiece : IsPiece 0 ['?'] :=
  .of_plain (by decide) (by decide) (by decide)

/-- What every derivation gives before anything is read: arguments are pieces
    with text in them, so that a list of them can be taken apart again. -/
def Framed : Category → List Char → Prop
  | .arguments, text => Matched text
  | .type _, text => IsPiece 0 text ∧ Text.Trimmed text ∧ text ≠ []
  | .argument, text | .bound, text => IsPiece 0 text ∧ Text.trim text ≠ []

/-- A name is a piece of its own and begins and ends with its characters. -/
theorem framed_name {name : List Char} (hchars : ∀ c ∈ name, isNameChar c = true)
    (hne : name ≠ []) : IsPiece 0 name ∧ Text.Trimmed name ∧ name ≠ [] :=
  ⟨isPiece_of_isNameChar hchars, trimmed_of_isNameChar hchars, hne⟩

private theorem framed_surround {left text right : List Char} (hleft : Text.Blank left)
    (htext : IsPiece 0 text ∧ Text.Trimmed text ∧ text ≠ []) (hright : Text.Blank right) :
    Framed .bound (left ++ text ++ right) := by
  obtain ⟨hpiece, htrimmed, hne⟩ := htext
  refine ⟨((IsPiece.of_blank hleft).append hpiece).append (.of_blank hright), ?_⟩
  rw [Text.trim_surrounded hleft htrimmed hright]
  exact hne

/-- A name with arguments is one piece, closed by its last character. -/
theorem framed_generic {qualifiable : Bool} {name gap inside : List Char}
    (hname : IsTypeName qualifiable name) (hgap : Text.Blank gap) (hinside : Matched inside) :
    Framed (.type true) (name ++ gap ++ '<' :: (inside ++ ['>'])) := by
  have hpiece := isPiece_of_isNameChar hname.isNameChar
  refine ⟨?_, trimmed_generic hname.ne_nil hname.isNameChar gap inside, by simp⟩
  exact (hpiece.append (.of_blank hgap)).append (.enclose hinside)

/-- A wildcard is one piece if its bound is. -/
theorem framed_bounded {left gap text : List Char} (side : Bound) (hleft : Text.Blank left)
    (hgap : Text.Blank gap) (htext : IsPiece 0 text) :
    Framed .argument (left ++ '?' :: (gap ++ side.keyword.toList ++ ' ' :: text)) := by
  refine ⟨?_, Text.trim_ne_nil_of_mem (c := '?') (by simp) rfl⟩
  have hfront := ((IsPiece.of_blank hleft).append mark_isPiece).append (.of_blank hgap)
  simpa using (hfront.append (keyword_isPiece side)).append htext

/-- Every derivation gives text of the shape that reading takes apart. -/
theorem Derives.framed {category : Category} {text : List Char} (h : Derives category text) :
    Framed category text := by
  induction h with
  | name hname => exact framed_name hname.isNameChar hname.ne_nil
  | generic hname hgap _ ih => exact framed_generic hname hgap ih
  | last _ ih => exact ih.1.matched
  | more _ _ ih ihrest =>
    have hcomma : Matched [','] := rfl
    have hmatched := (ih.1.matched.append hcomma).append ihrest
    rw [List.append_assoc] at hmatched
    exact hmatched
  | @unbounded left right hleft hright =>
    refine ⟨?_, Text.trim_ne_nil_of_mem (c := '?') (by simp) rfl⟩
    simpa using ((IsPiece.of_blank hleft).append mark_isPiece).append (.of_blank hright)
  | @bounded left gap text side hleft hgap _ ih =>
    exact framed_bounded side hleft hgap ih.1
  | plain _ ih => exact ih
  | typeVariable hleft hletter hdigits hright =>
    have hname := isIdentifier_of_isTypeVariable hletter hdigits
    exact framed_surround hleft (framed_name hname.isNameChar hname.ne_nil) hright
  | native hleft hname hright =>
    have hname := isIdentifier_of_isNativeName hname
    exact framed_surround hleft (framed_name hname.isNameChar hname.ne_nil) hright
  | array hleft htext hright =>
    exact framed_surround hleft ⟨htext.piece, htext.trimmed, htext.ne_nil⟩ hright
  | type hleft _ hright ih => exact framed_surround hleft ih hright

/-- What reading makes of a derived text. A bound is read as a type or is a type
    variable, so that it can stand behind the keyword of a wildcard. -/
def Accepted (table : WellKnown) : Category → List Char → Prop
  | .type qualifiable, text => ∀ package, (qualifiable = true → isBlank package = true) →
      ∃ t, parse table package (String.ofList text) = .ok t
  | .arguments, text => ∃ pieces, pieces ≠ [] ∧ text = [','].intercalate pieces ∧
      ∀ piece ∈ pieces, Framed .argument piece ∧ ∃ argument, readArgument table piece = .ok argument
  | .argument, text => ∃ argument, readArgument table text = .ok argument
  | .bound, text => (∃ t, readArgument table text = .ok (.type t)) ∨
      isTypeVariable (Text.trim text) = true

/-- A bound can be read as an argument of its own. -/
private theorem Accepted.argument {table : WellKnown} {text : List Char}
    (h : Accepted table .bound text) : Accepted table .argument text := by
  rcases h with ⟨t, ht⟩ | hvariable
  · exact ⟨_, ht⟩
  · exact ⟨_, readArgument_of_isTypeVariable table hvariable⟩

/-- A text that begins with a name does not begin with a question mark. -/
theorem head?_ne_mark {name : List Char} (hne : name ≠ [])
    (hchars : ∀ c ∈ name, isNameChar c = true) (rest : List Char) : (name ++ rest).head? ≠ some '?' := by
  intro hhead
  rw [List.head?_append_of_ne_nil _ hne] at hhead
  exact ne_of_isNameChar (hchars '?' (List.mem_of_head? hhead)) (by simp : '?' ∈ _) rfl

/-- A text of a type never looks like a wildcard. -/
theorem Derives.head?_ne {qualifiable : Bool} {text : List Char} (h : Derives (.type qualifiable) text) :
    text.head? ≠ some '?' := by
  cases h with
  | name hname => simpa using head?_ne_mark hname.ne_nil hname.isNameChar []
  | @generic _ name gap inside hname hgap hinside =>
    rw [List.append_assoc]
    exact head?_ne_mark hname.ne_nil hname.isNameChar _

/-- Texts that are not wildcards can be bounds if they are native, arrays or
    declared types. -/
private theorem accepted_bound {table : WellKnown} {left text right : List Char}
    (hleft : Text.Blank left) (htrimmed : Text.Trimmed text) (hright : Text.Blank right)
    (hmark : text.head? ≠ some '?')
    (h : isNativeName (String.ofList text) = true ∨ ['[', ']'] <:+ text ∨
      ∃ t, parse table "" (String.ofList text) = .ok t) :
    Accepted table .bound (left ++ text ++ right) := by
  have htrim := Text.trim_surrounded hleft htrimmed hright
  rw [← htrim] at hmark h
  by_cases hvariable : isTypeVariable (Text.trim (left ++ text ++ right)) = true
  · exact .inr hvariable
  · rw [Bool.not_eq_true] at hvariable
    refine .inl ?_
    by_cases hnative : isNativeName (String.ofList (Text.trim (left ++ text ++ right))) = true
    · exact ⟨_, readArgument_eq_ok_iff.mpr (.native hmark hvariable (.inl hnative))⟩
    · by_cases harray : ['[', ']'] <:+ Text.trim (left ++ text ++ right)
      · exact ⟨_, readArgument_eq_ok_iff.mpr (.native hmark hvariable (.inr harray))⟩
      · rcases h with h | h | ⟨t, ht⟩
        · exact absurd h hnative
        · exact absurd h harray
        · rw [Bool.not_eq_true] at hnative
          exact ⟨t, readArgument_eq_ok_iff.mpr (.declared hmark hvariable hnative harray ht)⟩

/-- Every derived text is accepted, whatever the table is. -/
theorem Derives.accepted (table : WellKnown) {category : Category} {text : List Char}
    (h : Derives category text) : Accepted table category text := by
  induction h with
  | @name qualifiable name hname =>
    intro package hpackage
    obtain ⟨p, n, hresolves⟩ := hname.exists_resolves table hpackage
    exact ⟨_, parse_name hresolves⟩
  | @generic qualifiable name gap inside hname hgap hinside ih =>
    intro package hpackage
    obtain ⟨p, n, hresolves⟩ := hname.exists_resolves table hpackage
    obtain ⟨pieces, hne, rfl, hpieces⟩ := ih
    obtain ⟨arguments, harguments⟩ := exists_forall₂ fun piece hpiece => (hpieces piece hpiece).2
    exact ⟨_, parse_generic hresolves hgap hne (fun piece hpiece => (hpieces piece hpiece).1) harguments⟩
  -- A list of arguments is kept as the pieces it is joined from, each with what it is read as.
  | @last text htext ih =>
    refine ⟨[text], by simp, by simp, ?_⟩
    intro piece hpiece
    obtain rfl := List.mem_singleton.mp hpiece
    exact ⟨htext.framed, ih⟩
  | @more text rest htext _ ih ihrest =>
    obtain ⟨pieces, hne, rfl, hpieces⟩ := ihrest
    refine ⟨text :: pieces, by simp, ?_, ?_⟩
    · rw [List.intercalate_cons_of_ne_nil hne, List.append_assoc]
      rfl
    · intro piece hpiece
      rcases List.mem_cons.mp hpiece with rfl | hpiece
      · exact ⟨htext.framed, ih⟩
      · exact hpieces piece hpiece
  | @unbounded left right hleft hright =>
    have hmark : Text.Trimmed ['?'] := .of_all rfl
    have htext : Text.trim (left ++ ['?'] ++ right) = ['?'] := Text.trim_surrounded hleft hmark hright
    refine ⟨_, readArgument_eq_ok_iff.mpr (.unbounded ?_)⟩
    simpa using htext
  | @bounded left gap text side hleft hgap htext ih =>
    rcases ih with ⟨t, ht⟩ | hvariable
    · exact ⟨_, readArgument_wildcard side hleft hgap htext.framed.2 ht⟩
    · exact ⟨_, readArgument_boundedByVariable table side hleft hgap hvariable⟩
  -- What is left is a bound, which is read like an argument without a question mark.
  | plain _ ih => exact ih.argument
  | @typeVariable left digits right letter hleft hletter hdigits hright =>
    have hname := isIdentifier_of_isTypeVariable hletter hdigits
    refine .inr ?_
    rw [Text.trim_surrounded hleft (trimmed_of_isNameChar hname.isNameChar) hright]
    exact isTypeVariable_iff.mpr ⟨letter, digits, rfl, hletter, hdigits⟩
  | @native left right name hleft hname hright =>
    have hchars := (isIdentifier_of_isNativeName hname).isNameChar
    have hne := (isIdentifier_of_isNativeName hname).ne_nil
    refine accepted_bound hleft (trimmed_of_isNameChar hchars) hright ?_ (.inl ?_)
    · simpa using head?_ne_mark hne hchars []
    · rwa [String.ofList_toList]
  | array hleft htext hright =>
    exact accepted_bound hleft htext.trimmed hright htext.mark (.inr (.inl htext.array))
  | type hleft htext hright ih =>
    exact accepted_bound hleft htext.framed.2.1 hright htext.head?_ne
      (.inr (.inr (ih "" fun _ => isBlank_empty)))

/-- White space around a bound is part of what the grammar derives. -/
private theorem Derives.surround_bound {left text right : List Char} (h : Derives .bound text)
    (hleft : Text.Blank left) (hright : Text.Blank right) :
    Derives .bound (left ++ text ++ right) := by
  cases h with
  | typeVariable hleft' hletter hdigits hright' =>
    simpa using Derives.typeVariable (hleft.append hleft') hletter hdigits (hright'.append hright)
  | native hleft' hname hright' =>
    simpa using Derives.native (hleft.append hleft') hname (hright'.append hright)
  | array hleft' htext hright' =>
    simpa using Derives.array (hleft.append hleft') htext (hright'.append hright)
  | type hleft' htext hright' =>
    simpa using Derives.type (hleft.append hleft') htext (hright'.append hright)

private theorem Derives.surround_argument {left text right : List Char} (h : Derives .argument text)
    (hleft : Text.Blank left) (hright : Text.Blank right) :
    Derives .argument (left ++ text ++ right) := by
  cases h with
  | unbounded hleft' hright' =>
    simpa using Derives.unbounded (hleft.append hleft') (hright'.append hright)
  | bounded side hleft' hgap htext =>
    have hbound : Derives .bound ([] ++ _ ++ right) := htext.surround_bound .nil hright
    simpa using Derives.bounded side (hleft.append hleft') hgap hbound
  | plain htext => exact .plain (htext.surround_bound hleft hright)

private theorem derives_of_trim_argument {text : List Char} (h : Derives .argument (Text.trim text)) :
    Derives .argument text := by
  obtain ⟨left, right, hleft, hright, htext⟩ := Text.exists_blank_append_trim text
  rw [htext]
  exact h.surround_argument hleft hright

private theorem derives_of_trim_bound {text : List Char} (h : Derives .bound (Text.trim text)) :
    Derives .bound text := by
  obtain ⟨left, right, hleft, hright, htext⟩ := Text.exists_blank_append_trim text
  rw [htext]
  exact h.surround_bound hleft hright

private theorem derives_intercalate {pieces : List (List Char)} (hne : pieces ≠ [])
    (h : ∀ piece ∈ pieces, Derives .argument piece) : Derives .arguments ([','].intercalate pieces) := by
  induction pieces with
  | nil => exact absurd rfl hne
  | cons first more ih =>
    have hfirst := h first List.mem_cons_self
    cases more with
    | nil => simpa using Derives.last hfirst
    | cons second more =>
      have hmore := ih (by simp) fun piece hpiece => h piece (List.mem_cons_of_mem _ hpiece)
      rw [List.intercalate_cons_cons, List.append_assoc]
      exact .more hfirst hmore

/-- The text in front of the arguments has no white space at its start, which
    would be in front of the whole text. -/
private theorem exists_trim_append {front rest : List Char} (h : Text.Trimmed (front ++ rest)) :
    ∃ gap, Text.Blank gap ∧ front = Text.trim front ++ gap := by
  obtain ⟨left, gap, hleft, hgap, hfront⟩ := Text.exists_blank_append_trim front
  have htrimmed : Text.Trimmed (left ++ (Text.trim front ++ gap ++ rest)) := by
    rw [hfront] at h
    simpa using h
  obtain rfl := htrimmed.left_eq_nil hleft
  exact ⟨gap, hgap, by simpa using hfront⟩

/-- A text is derived as a type if the pieces it is taken apart into are derived. -/
private theorem derives_of_splitsInto {table : WellKnown} {package : String} {raw : List Char}
    {parts : Split} {p n : String} {arguments : List TypeArg} (hsplit : SplitsInto (Text.trim raw) parts)
    (hresolves : Resolves table package.toList parts.base p n)
    (harguments : List.Forall₂ (fun text _ => IsPiece 0 text → Derives .argument text)
      parts.arguments arguments) : Derives (.type (isBlank package)) (Text.trim raw) := by
  have htrimmed := Text.trimmed_trim raw
  have hname := (isTypeName_iff_exists_resolves table).mpr ⟨p, n, hresolves⟩
  cases hsplit with
  | plain => exact .name hname
  | @grouped front pieces _ hne hpieces _ hraw =>
    rw [hraw] at htrimmed ⊢
    have hderives : ∀ piece ∈ pieces, Derives .argument piece := by
      intro piece hpiece
      obtain ⟨_, _, hderive⟩ := exists_of_forall₂ harguments _ (List.mem_map_of_mem hpiece)
      exact derives_of_trim_argument (hderive (isPiece_trim_iff.mpr (hpieces piece hpiece)))
    obtain ⟨gap, hgap, hfrontEq⟩ := exists_trim_append htrimmed
    rw [hfrontEq]
    exact .generic hname hgap (derives_intercalate hne hderives)

/-- What a derivation of an argument has to show for what it is read as. A type
    can be a bound as well. -/
private def Justified (text : List Char) : TypeArg → Prop
  | .type _ => Derives .bound text
  | .wildcard .. | .placeholder _ => Derives .argument text

private theorem Justified.derives {text : List Char} {argument : TypeArg} (h : Justified text argument) :
    Derives .argument text := by
  cases argument with
  | type t => exact .plain h
  | wildcard bound t => exact h
  | placeholder name => exact h

/-- The bound of a wildcard is a piece if the wildcard is, since neither the
    mark nor the keyword has brackets. -/
theorem isPiece_subject {text rest subject : List Char} {bound : Bound} (hpiece : IsPiece 0 text)
    (htext : Text.trim text = '?' :: rest)
    (hbound : Text.trim rest = bound.keyword.toList ++ ' ' :: subject) : IsPiece 0 subject := by
  have hmark := isPiece_trim_iff.mpr hpiece
  rw [htext, ← List.singleton_append] at hmark
  have hrest := isPiece_trim_iff.mpr (hmark.of_append_left mark_isPiece.matched)
  rw [hbound, List.append_cons] at hrest
  exact hrest.of_append_left (keyword_isPiece bound).matched

/-- A wildcard is derived from its bound, with the white space that it had. -/
private theorem derives_bounded {text rest subject : List Char} {bound : Bound}
    (htext : Text.trim text = '?' :: rest)
    (hbound : Text.trim rest = bound.keyword.toList ++ ' ' :: subject)
    (hsubject : Derives .bound subject) : Derives .argument text := by
  obtain ⟨gap, after, hgap, hafter, hrest⟩ := Text.exists_blank_append_trim rest
  have hderives : Derives .bound ([] ++ subject ++ after) := hsubject.surround_bound .nil hafter
  apply derives_of_trim_argument
  rw [htext, hrest, hbound]
  simpa using Derives.bounded bound .nil hgap hderives

private theorem derives_typeVariable {text : List Char} (h : isTypeVariable (Text.trim text) = true) :
    Derives .bound text := by
  obtain ⟨letter, digits, htext, hletter, hdigits⟩ := isTypeVariable_iff.mp h
  apply derives_of_trim_bound
  rw [htext]
  simpa using Derives.typeVariable .nil hletter hdigits .nil

private theorem justified_of_readArgument {table : WellKnown} {text : List Char} {argument : TypeArg}
    (h : readArgument table text = .ok argument) : IsPiece 0 text → Justified text argument := by
  induction h using readArgument_induction with
  | unbounded _ htext =>
    intro _
    have hderives : Derives .argument ([] ++ '?' :: []) := .unbounded .nil .nil
    exact derives_of_trim_argument (htext ▸ hderives)
  | typeVariable _ hvariable =>
    intro _
    exact .plain (derives_typeVariable hvariable)
  | @native text _ hmark hnative =>
    intro hpiece
    apply derives_of_trim_bound
    rcases hnative with hnative | harray
    · simpa using Derives.native .nil hnative .nil
    · have hpieceTrim := isPiece_trim_iff.mpr hpiece
      simpa using Derives.array .nil ⟨Text.trimmed_trim text, harray, hmark, hpieceTrim⟩ .nil
  | @declared text parts p n _ _ hsplit hresolves harguments =>
    intro _
    have hunqualified : Resolves table "".toList parts.base p n := hresolves
    have htype := derives_of_splitsInto hsplit hunqualified
      (harguments.imp fun _ _ hread hpiece => (hread.2 hpiece).derives)
    apply derives_of_trim_bound
    simpa using Derives.type .nil htype .nil
  | wildcard _ htext hbound hsubject =>
    intro hpiece
    exact derives_bounded htext hbound (hsubject.2 (isPiece_subject hpiece htext hbound))
  | boundedByVariable _ htext hbound hvariable =>
    intro _
    exact derives_bounded htext hbound (derives_typeVariable hvariable)

/-- Only derived texts are accepted. -/
theorem derives_of_parse_eq_ok {table : WellKnown} {package raw : String} {t : TypeRef}
    (h : parse table package raw = .ok t) : Derives (.type (isBlank package)) (Text.trim raw.toList) := by
  obtain ⟨parts, p, n, arguments, hsplit, hresolves, harguments, _⟩ := parse_eq_ok_iff.mp h
  exact derives_of_splitsInto hsplit hresolves
    (harguments.imp fun _ _ hread hpiece => (justified_of_readArgument hread hpiece).derives)

/-- Text that is taken apart is matched, unless a bracket is left in its name. -/
private theorem matched_of_splitsInto {raw : String} {parts : Split}
    (hsplit : SplitsInto (Text.trim raw.toList) parts) (hclose : '>' ∉ parts.base) :
    Matched raw.toList := by
  apply Matched.of_trim
  cases hsplit with
  | plain hopen => exact .of_no_brackets hopen hclose
  | @grouped front pieces hfront _ hpieces _ hraw =>
    have hinside := Matched.intercalate fun piece hpiece => (hpieces piece hpiece).matched
    have hfrontClose : '>' ∉ front := fun hmem => hclose (Text.mem_trim hmem rfl)
    rw [hraw]
    exact (Matched.of_no_brackets hfront hfrontClose).append hinside.enclose

/-- Text with a bracket that has no partner is refused as it stands, before any
    of its names is looked at. -/
theorem parse_of_not_matched (table : WellKnown) (package : String) {raw : String}
    (h : ¬ Matched raw.toList) :
    ∃ reason, parse table package raw =
      .error (.malformedType (String.ofList (Text.trim raw.toList)) reason) := by
  cases hsplit : split (Text.trim raw.toList) with
  | error reason => exact ⟨reason, parse_of_split_eq_error table package hsplit⟩
  | ok parts =>
    have hbase : '>' ∈ parts.base := by
      by_contra hclose
      exact h (matched_of_splitsInto (split_eq_ok_iff.mp hsplit) hclose)
    have hne : Text.trim parts.base ≠ [] := Text.trim_ne_nil_of_mem hbase rfl
    have hfind : (parts.base.find? (! isNameChar ·)).isSome = true := by
      rw [List.find?_isSome]
      exact ⟨'>', hbase, by decide⟩
    obtain ⟨c, hc⟩ := Option.isSome_iff_exists.mp hfind
    exact ⟨_, parse_of_resolve_eq_error hsplit (resolve_of_find? table _ _ hne hc)⟩

/-- The texts that are read as types are those of the grammar, where only a text
    without a given package can have a qualified name. Every other text is
    refused, and a text with a bracket that has no partner as malformed. -/
theorem parse_accepts_iff_derives (table : WellKnown) (package raw : String) :
    ((∃ t, parse table package raw = .ok t) ↔
      Derives (.type (isBlank package)) (Text.trim raw.toList)) ∧
    (¬ Matched raw.toList → ∃ reason, parse table package raw =
      .error (.malformedType (String.ofList (Text.trim raw.toList)) reason)) := by
  refine ⟨⟨?_, ?_⟩, parse_of_not_matched table package⟩
  · rintro ⟨t, ht⟩
    exact derives_of_parse_eq_ok ht
  · intro h
    obtain ⟨t, ht⟩ := h.accepted table package id
    exact ⟨t, parse_trim_eq_ok_iff.mp ht⟩

/-- A bracket that is not closed is reported with the whole text. -/
theorem parse_accepts_iff_derives_unclosed :
    ¬ Matched "Map<K, List<V>".toList ∧ ∃ reason, parse .standard "" "Map<K, List<V>" =
      .error (.malformedType (String.ofList (Text.trim "Map<K, List<V>".toList)) reason) := by
  have hunclosed : ¬ Matched "Map<K, List<V>".toList := by decide
  exact ⟨hunclosed, (parse_accepts_iff_derives .standard "" "Map<K, List<V>").2 hunclosed⟩

end JavaSource.TypeRef
