import JavaSource.Proofs.TypeRef.Naming
import JavaSource.Proofs.TypeRef.Split
import Mathlib.Data.List.Forall2

namespace JavaSource

/-- Two computations succeed in turn if the first one does and the second one does
    with its result. -/
theorem bind_eq_ok_iff {ε α β : Type} {x : Except ε α} {f : α → Except ε β} {y : β} :
    (x >>= f) = .ok y ↔ ∃ a, x = .ok a ∧ f a = .ok y := by
  cases x <;> simp [bind, Except.bind]

/-- What is mapped from a success is the image of a success. -/
theorem map_eq_ok_iff {ε α β : Type} {x : Except ε α} {f : α → β} {y : β} :
    x.map f = .ok y ↔ ∃ a, x = .ok a ∧ f a = y := by
  cases x <;> simp [Except.map]

/-- What is mapped from a failure fails in the same way. -/
theorem map_eq_error_iff {ε α β : Type} {x : Except ε α} {f : α → β} {e : ε} :
    x.map f = .error e ↔ x = .error e := by
  cases x <;> simp [Except.map]

/-- A result can be looked for without its error. -/
theorem toOption_eq_some_iff {ε α : Type} {x : Except ε α} {a : α} : x.toOption = some a ↔ x = .ok a := by
  cases x <;> simp [Except.toOption]

/-- A computation for each element of a list succeeds if every one of them does. -/
theorem mapM_eq_ok_iff {ε α β : Type} {f : α → Except ε β} {xs : List α} {ys : List β} :
    xs.mapM f = .ok ys ↔ List.Forall₂ (fun x y => f x = .ok y) xs ys := by
  induction xs generalizing ys with
  | nil => cases ys <;> simp [pure, Except.pure]
  | cons x xs ih =>
    rw [List.mapM_cons, bind_eq_ok_iff]
    constructor
    · rintro ⟨y, hy, hrest⟩
      obtain ⟨rest, hmap, hys⟩ := bind_eq_ok_iff.mp hrest
      obtain rfl := Except.ok.inj hys
      exact .cons hy (ih.mp hmap)
    · rintro (_ | ⟨hy, hrest⟩)
      exact ⟨_, hy, bind_eq_ok_iff.mpr ⟨_, ih.mpr hrest, rfl⟩⟩

/-- Where results are changed one by one, the first failure stays the same. -/
theorem mapM_eq_map_zipWith {ε α β : Type} {f g : α → Except ε β} {change : α → β → β} {xs : List α}
    (h : ∀ x ∈ xs, g x = (f x).map (change x)) :
    xs.mapM g = (xs.mapM f).map (List.zipWith change xs) := by
  induction xs with
  | nil => rfl
  | cons x xs ih =>
    obtain ⟨hx, hxs⟩ := List.forall_mem_cons.mp h
    rw [List.mapM_cons, List.mapM_cons, hx, ih hxs]
    cases f x with
    | error error => rfl
    | ok y =>
      cases xs.mapM f with
      | error error => rfl
      | ok ys => rfl

/-- Elements that each have a partner have a list of partners. -/
theorem exists_forall₂ {α β : Type} {R : α → β → Prop} {xs : List α} (h : ∀ x ∈ xs, ∃ y, R x y) :
    ∃ ys, List.Forall₂ R xs ys := by
  induction xs with
  | nil => exact ⟨[], .nil⟩
  | cons x xs ih =>
    obtain ⟨y, hy⟩ := h x List.mem_cons_self
    obtain ⟨ys, hys⟩ := ih fun x hx => h x (List.mem_cons_of_mem _ hx)
    exact ⟨y :: ys, .cons hy hys⟩

/-- A run over a list fails as its leftmost failing element does. -/
theorem mapM_eq_error_iff {ε α β : Type} {f : α → Except ε β} {xs : List α} {error : ε} :
    xs.mapM f = .error error ↔
      ∃ before x after, xs = before ++ x :: after ∧ (∀ y ∈ before, ∃ b, f y = .ok b) ∧ f x = .error error := by
  constructor
  · intro h
    induction xs with
    | nil => cases h
    | cons x xs ih =>
      cases hx : f x with
      | error failure =>
        rw [List.mapM_cons, hx] at h
        obtain rfl := Except.error.inj h
        exact ⟨[], x, xs, rfl, nofun, hx⟩
      | ok b =>
        -- The first element succeeds, so that the error comes from the rest.
        have hrest : xs.mapM f = .error error := by
          cases hxs : xs.mapM f with
          | error failure =>
            rw [List.mapM_cons, hx, hxs] at h
            rw [Except.error.inj h]
          | ok bs =>
            rw [List.mapM_cons, hx, hxs] at h
            cases h
        obtain ⟨before, y, after, rfl, hbefore, hy⟩ := ih hrest
        exact ⟨x :: before, y, after, rfl, List.forall_mem_cons.mpr ⟨⟨b, hx⟩, hbefore⟩, hy⟩
  · rintro ⟨before, x, after, rfl, hbefore, hx⟩
    obtain ⟨bs, hbs⟩ := exists_forall₂ hbefore
    rw [List.mapM_append, mapM_eq_ok_iff.mpr hbs, List.mapM_cons, hx]
    rfl

/-- Each element of the first list has a partner in the second. -/
theorem exists_of_forall₂ {α β : Type} {R : α → β → Prop} {xs : List α} {ys : List β}
    (h : List.Forall₂ R xs ys) : ∀ x ∈ xs, ∃ y ∈ ys, R x y := by
  induction h with
  | nil => simp
  | @cons x y xs ys hxy _ ih =>
    intro x' hx'
    rcases List.mem_cons.mp hx' with rfl | hx'
    · exact ⟨y, List.mem_cons_self, hxy⟩
    · obtain ⟨y', hy', hxy'⟩ := ih x' hx'
      exact ⟨y', List.mem_cons_of_mem _ hy', hxy'⟩

theorem exists_of_forall₂_right {α β : Type} {R : α → β → Prop} {xs : List α} {ys : List β}
    (h : List.Forall₂ R xs ys) : ∀ y ∈ ys, ∃ x ∈ xs, R x y :=
  exists_of_forall₂ (R := fun y x => R x y) h.flip

/-- Elements that are numbered have the keys of their numbers. -/
theorem map_fst_mapIdx {α β : Type} (key : Nat → β) (xs : List α) :
    (xs.mapIdx fun i x => (key i, x)).map Prod.fst = (List.range xs.length).map key := by
  rw [List.mapIdx_eq_zipIdx_map, List.map_map, List.range_eq_range', ← List.zipIdx_map_snd 0 xs,
    List.map_map]
  rfl

theorem map_snd_mapIdx {α β : Type} (key : Nat → β) (xs : List α) :
    (xs.mapIdx fun i x => (key i, x)).map Prod.snd = xs := by
  rw [List.mapIdx_eq_zipIdx_map, List.map_map]
  exact List.zipIdx_map_fst 0 xs

/-- The slots that reading fills have the arguments that it reads. -/
theorem forall₂_slots {P : List Char → TypeArg → Prop} {raws : List (List Char)}
    {arguments : List TypeArg} (h : List.Forall₂ P raws arguments) :
    List.Forall₂ (fun raw slot => P raw slot.2) raws
      (arguments.mapIdx fun i argument => (slotKey i, argument)) := by
  rw [← map_snd_mapIdx slotKey arguments] at h
  exact List.forall₂_map_right_iff.mp h

/-- A type variable is a letter with digits behind it. -/
theorem isTypeVariable_iff {text : List Char} :
    isTypeVariable text = true ↔
      ∃ letter digits, text = letter :: digits ∧ letter.isUpper = true ∧
        ∀ c ∈ digits, c.isDigit = true := by
  cases text with
  | nil => simp [isTypeVariable]
  | cons letter digits => simp [isTypeVariable]

/-- A bound begins with its keyword and one space. -/
theorem boundOf_eq_some_iff {text subject : List Char} {bound : Bound} :
    boundOf text = some (bound, subject) ↔ text = bound.keyword.toList ++ ' ' :: subject := by
  have hextends : "extends ".toList = Bound.extends.keyword.toList ++ [' '] := rfl
  have hsuper : "super ".toList = Bound.super.keyword.toList ++ [' '] := rfl
  constructor
  · intro h
    unfold boundOf at h
    split at h
    · next hword =>
      obtain ⟨rfl, rfl⟩ := by simpa using h
      obtain ⟨rest, rfl⟩ := List.isPrefixOf_iff_prefix.mp hword
      rfl
    · split at h
      · next hword =>
        obtain ⟨rfl, rfl⟩ := by simpa using h
        obtain ⟨rest, rfl⟩ := List.isPrefixOf_iff_prefix.mp hword
        rfl
      · cases h
  · rintro rfl
    cases bound with
    | «extends» => rfl
    | super => rfl

namespace TypeRef

/-- Reading without the proofs that the arguments are shorter than the text. -/
theorem readDeclared_eq (table : WellKnown) (package raw : List Char)
    (read : List Char → Except Error TypeArg) :
    readDeclared table package raw (fun text _ => read text) =
      match split (Text.trim raw) with
      | .error reason => .error (.malformedType (String.ofList (Text.trim raw)) reason)
      | .ok parts => do
        let (p, n) ← resolve table package (Text.trim raw) parts.base
        let arguments ← parts.arguments.mapM read
        return .declared p n (arguments.mapIdx fun i argument => (slotKey i, argument)) := by
  unfold readDeclared
  split
  · next reason hsplit => rw [hsplit]
  · next parts hsplit =>
    simp only [readEach_eq_mapM]
    rw [hsplit]

private theorem readDeclared_eq_ok_iff {table : WellKnown} {package raw : List Char}
    {read : List Char → Except Error TypeArg} {t : TypeRef} :
    readDeclared table package raw (fun text _ => read text) = .ok t ↔
      ∃ parts p n arguments, SplitsInto (Text.trim raw) parts ∧ Resolves table package parts.base p n ∧
        List.Forall₂ (fun text argument => read text = .ok argument) parts.arguments arguments ∧
        t = .declared p n (arguments.mapIdx fun i argument => (slotKey i, argument)) := by
  rw [readDeclared_eq]
  refine ⟨?_, ?_⟩
  · intro h
    cases hsplit : split (Text.trim raw) with
    | error reason =>
      rw [hsplit] at h
      cases h
    | ok parts =>
      rw [hsplit] at h
      obtain ⟨⟨p, n⟩, hresolve, h⟩ := bind_eq_ok_iff.mp h
      obtain ⟨arguments, hread, ht⟩ := bind_eq_ok_iff.mp h
      exact ⟨parts, p, n, arguments, split_eq_ok_iff.mp hsplit, resolve_eq_ok_iff.mp hresolve,
        mapM_eq_ok_iff.mp hread, (Except.ok.inj ht).symm⟩
  · rintro ⟨parts, p, n, arguments, hparts, hresolve, hread, rfl⟩
    rw [split_eq_ok_iff.mpr hparts]
    refine bind_eq_ok_iff.mpr ⟨(p, n), resolve_eq_ok_iff.mpr hresolve, ?_⟩
    exact bind_eq_ok_iff.mpr ⟨arguments, mapM_eq_ok_iff.mpr hread, rfl⟩

/-- Reading a declared type is taking its text apart, naming it and reading its
    arguments. -/
theorem parse_eq_ok_iff {table : WellKnown} {package raw : String} {t : TypeRef} :
    parse table package raw = .ok t ↔
      ∃ parts p n arguments, SplitsInto (Text.trim raw.toList) parts ∧
        Resolves table package.toList parts.base p n ∧
        List.Forall₂ (fun text argument => readArgument table text = .ok argument)
          parts.arguments arguments ∧
        t = .declared p n (arguments.mapIdx fun i argument => (slotKey i, argument)) :=
  readDeclared_eq_ok_iff

/-- White space around the text of a type does not count. -/
theorem parse_trim_eq_ok_iff {table : WellKnown} {package raw : String} {t : TypeRef} :
    parse table package (String.ofList (Text.trim raw.toList)) = .ok t ↔
      parse table package raw = .ok t := by
  rw [parse_eq_ok_iff, parse_eq_ok_iff, String.toList_ofList, Text.trim_trim]

/-- A text that cannot be taken apart is malformed as a whole. -/
theorem parse_of_split_eq_error (table : WellKnown) (package : String) {raw : String}
    {reason : Malformation} (h : split (Text.trim raw.toList) = .error reason) :
    parse table package raw = .error (.malformedType (String.ofList (Text.trim raw.toList)) reason) := by
  rw [parse, readDeclared_eq, h]

/-- A name that cannot be resolved is an error of the whole type. -/
theorem parse_of_resolve_eq_error {table : WellKnown} {package raw : String} {parts : Split}
    {error : Error} (hparts : split (Text.trim raw.toList) = .ok parts)
    (h : resolve table package.toList (Text.trim raw.toList) parts.base = .error error) :
    parse table package raw = .error error := by
  rw [parse, readDeclared_eq, hparts]
  simp only [h]
  rfl

private theorem parse_ofList (table : WellKnown) (raw : List Char) :
    parse table "" (String.ofList raw) =
      readDeclared table [] raw fun text _ => readArgument table text := by
  have hcongr : ∀ text, text = raw → readDeclared table [] text (fun text _ => readArgument table text) =
      readDeclared table [] raw fun text _ => readArgument table text := by
    rintro _ rfl
    rfl
  exact hcongr _ String.toList_ofList

/-- The forms of a generic argument, and what each one is read as. -/
inductive ReadsArgument (table : WellKnown) (text : List Char) : TypeArg → Prop where
  | unbounded (htext : Text.trim text = ['?']) : ReadsArgument table text (.placeholder "?")
  | typeVariable (hvariable : isTypeVariable (Text.trim text) = true) :
      ReadsArgument table text (.placeholder (String.ofList (Text.trim text)))
  | native (hmark : (Text.trim text).head? ≠ some '?')
      (hvariable : isTypeVariable (Text.trim text) = false)
      (hnative : isNativeName (String.ofList (Text.trim text)) = true ∨ ['[', ']'] <:+ Text.trim text) :
      ReadsArgument table text (.type (.native (String.ofList (Text.trim text))))
  | declared {t : TypeRef} (hmark : (Text.trim text).head? ≠ some '?')
      (hvariable : isTypeVariable (Text.trim text) = false)
      (hnative : isNativeName (String.ofList (Text.trim text)) = false)
      (harray : ¬ ['[', ']'] <:+ Text.trim text)
      (ht : parse table "" (String.ofList (Text.trim text)) = .ok t) :
      ReadsArgument table text (.type t)
  | wildcard {rest subject : List Char} {bound : Bound} {t : TypeRef}
      (htext : Text.trim text = '?' :: rest)
      (hbound : Text.trim rest = bound.keyword.toList ++ ' ' :: subject)
      (ht : readArgument table subject = .ok (.type t)) : ReadsArgument table text (.wildcard bound t)
  | boundedByVariable {rest subject : List Char} {bound : Bound}
      (htext : Text.trim text = '?' :: rest)
      (hbound : Text.trim rest = bound.keyword.toList ++ ' ' :: subject)
      (hvariable : isTypeVariable (Text.trim subject) = true) :
      ReadsArgument table text
        (.placeholder ("? " ++ bound.keyword ++ " " ++ String.ofList (Text.trim subject)))

/-- A type variable is read as it stands. -/
theorem readArgument_of_isTypeVariable (table : WellKnown) {text : List Char}
    (hvariable : isTypeVariable (Text.trim text) = true) :
    readArgument table text = .ok (.placeholder (String.ofList (Text.trim text))) := by
  rw [readArgument]
  split
  · next rest htext =>
    rw [htext] at hvariable
    cases hvariable
  · rw [if_pos hvariable]

/-- Any other argument without a question mark is a native type, an array, or a type
    to be read. -/
theorem readArgument_plain (table : WellKnown) {text : List Char}
    (hmark : (Text.trim text).head? ≠ some '?') (hvariable : isTypeVariable (Text.trim text) = false) :
    readArgument table text =
      if isNativeName (String.ofList (Text.trim text)) || ['[', ']'].isSuffixOf (Text.trim text) then
        .ok (.type (.native (String.ofList (Text.trim text))))
      else (parse table "" (String.ofList (Text.trim text))).map .type := by
  rw [readArgument, parse_ofList]
  split
  · next rest htext =>
    rw [htext] at hmark
    exact absurd rfl hmark
  · simp [hvariable]

/-- A wildcard is read by reading its bound. -/
theorem readArgument_bounded (table : WellKnown) {text rest subject : List Char} {bound : Bound}
    (htext : Text.trim text = '?' :: rest)
    (hbound : Text.trim rest = bound.keyword.toList ++ ' ' :: subject) :
    readArgument table text =
      match readArgument table subject with
      | .error error => .error error
      | .ok (.type t) => .ok (.wildcard bound t)
      | .ok _ =>
        if isTypeVariable (Text.trim subject) then
          .ok (.placeholder ("? " ++ bound.keyword ++ " " ++ String.ofList (Text.trim subject)))
        else .error (.malformedType (String.ofList ('?' :: rest)) .nestedWildcard) := by
  rw [readArgument]
  split
  · next rest' htext' =>
    obtain rfl : rest = rest' := by simpa [htext] using htext'
    have hne : (Text.trim rest).isEmpty = false := by simp [hbound]
    rw [hne]
    simp only [Bool.false_eq_true, if_false]
    split
    · next hnone =>
      rw [boundOf_eq_some_iff.mpr hbound] at hnone
      cases hnone
    · next bound' subject' hsome =>
      rw [boundOf_eq_some_iff.mpr hbound] at hsome
      obtain ⟨rfl, rfl⟩ := Prod.mk.inj (Option.some.inj hsome)
      rfl
  · next hplain => exact absurd htext (hplain rest)

/-- Behind a question mark without a bound there may only be white space. -/
theorem readArgument_unbounded (table : WellKnown) {text rest : List Char}
    (htext : Text.trim text = '?' :: rest) (hbound : boundOf (Text.trim rest) = none) :
    readArgument table text =
      if (Text.trim rest).isEmpty then .ok (.placeholder "?")
      else .error (.malformedType (String.ofList ('?' :: rest)) .boundKeyword) := by
  rw [readArgument]
  split
  · next rest' htext' =>
    obtain rfl : rest = rest' := by simpa [htext] using htext'
    split
    · rfl
    · split
      · rfl
      · next bound subject hsome =>
        rw [hbound] at hsome
        cases hsome
  · next hplain => exact absurd htext (hplain rest)

/-- The four ways in which the text of an argument can go on. -/
theorem argument_cases (text : List Char) :
    isTypeVariable (Text.trim text) = true ∨
      (∃ rest, Text.trim text = '?' :: rest ∧ boundOf (Text.trim rest) = none) ∨
      (∃ rest, ∃ bound : Bound, ∃ subject, Text.trim text = '?' :: rest ∧
        Text.trim rest = bound.keyword.toList ++ ' ' :: subject) ∨
      ((Text.trim text).head? ≠ some '?' ∧ isTypeVariable (Text.trim text) = false) := by
  by_cases hmark : (Text.trim text).head? = some '?'
  · obtain ⟨rest, htext⟩ := List.head?_eq_some_iff.mp hmark
    cases hbound : boundOf (Text.trim rest) with
    | none => exact .inr (.inl ⟨rest, htext, hbound⟩)
    | some parts =>
      exact .inr (.inr (.inl ⟨rest, parts.1, parts.2, htext, boundOf_eq_some_iff.mp hbound⟩))
  · cases hvariable : isTypeVariable (Text.trim text) with
    | true => exact .inl rfl
    | false => exact .inr (.inr (.inr ⟨hmark, rfl⟩))

/-- White space around an argument does not count. -/
theorem readArgument_trim (table : WellKnown) (text : List Char) :
    readArgument table (Text.trim text) = readArgument table text := by
  have htrim := Text.trim_trim text
  rcases argument_cases text with
    hvariable | ⟨rest, htext, hbound⟩ | ⟨rest, bound, subject, htext, hbound⟩ | ⟨hmark, hvariable⟩
  · have hvariable' : isTypeVariable (Text.trim (Text.trim text)) = true := by rwa [htrim]
    rw [readArgument_of_isTypeVariable table hvariable,
      readArgument_of_isTypeVariable table hvariable', htrim]
  · have htext' := htrim.trans htext
    rw [readArgument_unbounded table htext hbound, readArgument_unbounded table htext' hbound]
  · have htext' := htrim.trans htext
    rw [readArgument_bounded table htext hbound, readArgument_bounded table htext' hbound]
  · have hvariable' : isTypeVariable (Text.trim (Text.trim text)) = false := by rwa [htrim]
    have hmark' : (Text.trim (Text.trim text)).head? ≠ some '?' := by rwa [htrim]
    rw [readArgument_plain table hmark hvariable, readArgument_plain table hmark' hvariable', htrim]

/-- A name is a piece. -/
theorem isPiece_of_isNameChar {text : List Char} (h : ∀ c ∈ text, isNameChar c = true) :
    IsPiece 0 text := by
  have hnot : ∀ mark ∈ ['<', '>', ',', '[', ']', '?', ' '], mark ∉ text := fun mark hmark hmem =>
    ne_of_isNameChar (h mark hmem) hmark rfl
  exact .of_plain (hnot '<' (by simp)) (hnot '>' (by simp)) (hnot ',' (by simp))

/-- A name on its own is a type without arguments. -/
theorem parse_name {table : WellKnown} {package : String} {name : List Char} {p n : String}
    (hresolves : Resolves table package.toList name p n) :
    parse table package (String.ofList name) = .ok (.declared p n []) := by
  have hname := (isTypeName_iff_exists_resolves table).mpr ⟨p, n, hresolves⟩
  have hnot : ∀ mark ∈ ['<', '>', ',', '[', ']', '?', ' '], mark ∉ name := fun mark hmark hmem =>
    ne_of_isNameChar (hname.isNameChar mark hmem) hmark rfl
  have hsplit : SplitsInto (Text.trim (String.ofList name).toList) ⟨name, []⟩ := by
    rw [String.toList_ofList, (trimmed_of_isNameChar hname.isNameChar).trim_eq]
    exact .plain (hnot '<' (by simp)) (hnot '>' (by simp)) (hnot ',' (by simp))
  exact parse_eq_ok_iff.mpr ⟨_, p, n, [], hsplit, hresolves, .nil, rfl⟩

/-- A name with arguments begins with the name and ends with a bracket. -/
theorem trimmed_generic {name : List Char} (hne : name ≠ [])
    (hchars : ∀ c ∈ name, isNameChar c = true) (gap inside : List Char) :
    Text.Trimmed (name ++ gap ++ '<' :: (inside ++ ['>'])) := by
  have hclose : Text.Trimmed ['>'] := .of_all rfl
  simpa using (trimmed_of_isNameChar hchars).append hne hclose (by simp) (gap ++ '<' :: inside)

/-- A name with arguments behind it, all of which are pieces with text in them. -/
theorem parse_generic {table : WellKnown} {package : String} {name gap : List Char}
    {pieces : List (List Char)} {arguments : List TypeArg} {p n : String}
    (hresolves : Resolves table package.toList name p n) (hgap : Text.Blank gap) (hne : pieces ≠ [])
    (hpieces : ∀ piece ∈ pieces, IsPiece 0 piece ∧ Text.trim piece ≠ [])
    (harguments : List.Forall₂ (fun piece argument => readArgument table piece = .ok argument)
      pieces arguments) :
    parse table package (String.ofList (name ++ gap ++ '<' :: ([','].intercalate pieces ++ ['>']))) =
      .ok (.declared p n (arguments.mapIdx fun i argument => (slotKey i, argument))) := by
  have hname := (isTypeName_iff_exists_resolves table).mpr ⟨p, n, hresolves⟩
  have hfront : '<' ∉ name ++ gap := by
    intro hmem
    rcases List.mem_append.mp hmem with hmem | hmem
    · exact ne_of_isNameChar (hname.isNameChar _ hmem) (by simp : '<' ∈ _) rfl
    · exact hgap.notMem rfl hmem
  have hbase : Text.trim (name ++ gap) = name := by
    simpa using Text.trim_surrounded .nil (trimmed_of_isNameChar hname.isNameChar) hgap
  have hsplit := SplitsInto.grouped hfront hne (fun piece hpiece => (hpieces piece hpiece).1)
    (fun piece hpiece => (hpieces piece hpiece).2) rfl
  rw [hbase] at hsplit
  have htrimmed : List.Forall₂ (fun text argument => readArgument table text = .ok argument)
      (pieces.map Text.trim) arguments := by
    rw [List.forall₂_map_left_iff]
    exact harguments.imp fun piece argument h => (readArgument_trim table piece).trans h
  refine parse_eq_ok_iff.mpr ⟨⟨name, pieces.map Text.trim⟩, p, n, arguments, ?_, hresolves, htrimmed, rfl⟩
  rw [String.toList_ofList, (trimmed_generic hname.ne_nil hname.isNameChar gap _).trim_eq]
  exact hsplit

/-- Every form of an argument is read as what it is. -/
theorem ReadsArgument.readArgument {table : WellKnown} {text : List Char} {argument : TypeArg}
    (h : ReadsArgument table text argument) : readArgument table text = .ok argument := by
  cases h with
  | unbounded htext =>
    have hbound : boundOf (Text.trim []) = none := rfl
    rw [readArgument_unbounded table htext hbound]
    rfl
  | typeVariable hvariable => exact readArgument_of_isTypeVariable table hvariable
  | native hmark hvariable hnative =>
    rw [readArgument_plain table hmark hvariable, if_pos]
    simpa using hnative
  | declared hmark hvariable hnative harray ht =>
    rw [readArgument_plain table hmark hvariable, ht, if_neg]
    · rfl
    · simpa [hnative] using harray
  | wildcard htext hbound ht => rw [readArgument_bounded table htext hbound, ht]
  | boundedByVariable htext hbound hvariable =>
    rw [readArgument_bounded table htext hbound, readArgument_of_isTypeVariable table hvariable]
    simp [hvariable]

private theorem readsArgument_of_unbounded {table : WellKnown} {text rest : List Char}
    {argument : TypeArg} (htext : Text.trim text = '?' :: rest) (hbound : boundOf (Text.trim rest) = none)
    (h : readArgument table text = .ok argument) : ReadsArgument table text argument := by
  rw [readArgument_unbounded table htext hbound] at h
  split at h
  · next hblank =>
    obtain rfl := Except.ok.inj h
    -- Nothing but the mark is left, since the trimmed text has no space at its end.
    have htrimmed := Text.trimmed_trim text
    rw [htext, ← List.singleton_append] at htrimmed
    obtain rfl := htrimmed.right_eq_nil (Text.trim_eq_nil_iff.mp (List.isEmpty_iff.mp hblank))
    exact .unbounded htext
  · cases h

private theorem readsArgument_of_bounded {table : WellKnown} {text rest subject : List Char}
    {bound : Bound} {argument : TypeArg} (htext : Text.trim text = '?' :: rest)
    (hbound : Text.trim rest = bound.keyword.toList ++ ' ' :: subject)
    (h : readArgument table text = .ok argument) : ReadsArgument table text argument := by
  rw [readArgument_bounded table htext hbound] at h
  split at h
  · cases h
  · next t ht =>
    obtain rfl := Except.ok.inj h
    exact .wildcard htext hbound ht
  · split at h
    · next hsubject =>
      obtain rfl := Except.ok.inj h
      exact .boundedByVariable htext hbound hsubject
    · cases h

private theorem readsArgument_of_plain {table : WellKnown} {text : List Char} {argument : TypeArg}
    (hmark : (Text.trim text).head? ≠ some '?') (hvariable : isTypeVariable (Text.trim text) = false)
    (h : readArgument table text = .ok argument) : ReadsArgument table text argument := by
  rw [readArgument_plain table hmark hvariable] at h
  split at h
  · next hnative =>
    obtain rfl := Except.ok.inj h
    refine .native hmark hvariable ?_
    simpa using hnative
  · next hnative =>
    rw [Bool.or_eq_true, not_or, List.isSuffixOf_iff_suffix, Bool.not_eq_true] at hnative
    cases ht : parse table "" (String.ofList (Text.trim text)) with
    | error error =>
      rw [ht] at h
      cases h
    | ok t =>
      rw [ht] at h
      obtain rfl := Except.ok.inj h
      exact .declared hmark hvariable hnative.1 hnative.2 ht

/-- Reading an argument succeeds exactly for the six forms. -/
theorem readArgument_eq_ok_iff {table : WellKnown} {text : List Char} {argument : TypeArg} :
    readArgument table text = .ok argument ↔ ReadsArgument table text argument := by
  refine ⟨?_, ReadsArgument.readArgument⟩
  intro h
  rcases argument_cases text with
    hvariable | ⟨rest, htext, hbound⟩ | ⟨rest, bound, subject, htext, hbound⟩ | ⟨hmark, hvariable⟩
  · rw [readArgument_of_isTypeVariable table hvariable] at h
    obtain rfl := Except.ok.inj h
    exact .typeVariable hvariable
  · exact readsArgument_of_unbounded htext hbound h
  · exact readsArgument_of_bounded htext hbound h
  · exact readsArgument_of_plain hmark hvariable h

/-- Keywords are made of letters. -/
theorem isNameChar_keyword (bound : Bound) : ∀ c ∈ bound.keyword.toList, isNameChar c = true := by
  have hall : bound.keyword.toList.all isNameChar = true := by cases bound <;> rfl
  exact List.all_eq_true.mp hall

/-- What is left of a bounded wildcard once the white space that does not count
    is gone: the mark, the keyword with its space, and the bound. -/
private theorem trim_bounded {left gap text : List Char} (bound : Bound) (hleft : Text.Blank left)
    (hgap : Text.Blank gap) (hne : Text.trim text ≠ []) :
    ∃ rest subject, Text.trim (left ++ '?' :: (gap ++ bound.keyword.toList ++ ' ' :: text)) = '?' :: rest ∧
      Text.trim rest = bound.keyword.toList ++ ' ' :: subject ∧ Text.trim subject = Text.trim text := by
  obtain ⟨before, after, hbefore, hafter, htext⟩ := Text.exists_blank_append_trim text
  have hmark : Text.Trimmed ['?'] := .of_all rfl
  have hkeyword := trimmed_of_isNameChar (isNameChar_keyword bound)
  have hkeywordNe : bound.keyword.toList ≠ [] := by cases bound <;> simp [Bound.keyword]
  refine ⟨gap ++ bound.keyword.toList ++ ' ' :: (before ++ Text.trim text), before ++ Text.trim text,
    ?_, ?_, ?_⟩
  · have hcore := hmark.append (by simp) (Text.trimmed_trim text) hne
      (gap ++ bound.keyword.toList ++ ' ' :: before)
    have htrim := Text.trim_surrounded hleft hcore hafter
    conv_lhs => rw [htext]
    simpa using htrim
  · have hcore := hkeyword.append hkeywordNe (Text.trimmed_trim text) hne (' ' :: before)
    have htrim := Text.trim_surrounded hgap hcore .nil
    simpa using htrim
  · simpa using Text.trim_surrounded hbefore (Text.trimmed_trim text) .nil

/-- A wildcard whose bound is read as a type. -/
theorem readArgument_wildcard {table : WellKnown} {left gap text : List Char} {t : TypeRef}
    (bound : Bound) (hleft : Text.Blank left) (hgap : Text.Blank gap) (hne : Text.trim text ≠ [])
    (ht : readArgument table text = .ok (.type t)) :
    readArgument table (left ++ '?' :: (gap ++ bound.keyword.toList ++ ' ' :: text)) =
      .ok (.wildcard bound t) := by
  obtain ⟨rest, subject, htext, hbound, hsubject⟩ := trim_bounded bound hleft hgap hne
  refine readArgument_eq_ok_iff.mpr (.wildcard htext hbound ?_)
  rw [← readArgument_trim, hsubject, readArgument_trim]
  exact ht

/-- A wildcard that a type variable bounds names no type. -/
theorem readArgument_boundedByVariable (table : WellKnown) {left gap text : List Char}
    (bound : Bound) (hleft : Text.Blank left) (hgap : Text.Blank gap)
    (hvariable : isTypeVariable (Text.trim text) = true) :
    readArgument table (left ++ '?' :: (gap ++ bound.keyword.toList ++ ' ' :: text)) =
      .ok (.placeholder ("? " ++ bound.keyword ++ " " ++ String.ofList (Text.trim text))) := by
  have hne : Text.trim text ≠ [] := by
    intro hnil
    rw [hnil] at hvariable
    cases hvariable
  obtain ⟨rest, subject, htext, hbound, hsubject⟩ := trim_bounded bound hleft hgap hne
  rw [← hsubject] at hvariable ⊢
  exact readArgument_eq_ok_iff.mpr (.boundedByVariable htext hbound hvariable)

end TypeRef

end JavaSource
