import JavaSource.Proofs.CompilationUnit.Mentions
import JavaSource.Proofs.Text.Word
import JavaSource.Proofs.TypeRef.Grammar
import JavaSource.Proofs.TypeRef.Induction

namespace JavaSource.TypeRef

open Text (Delimits LiesIn)

/-- A name without dots that reading looks up: it is not native, it is not a
    variable, and it does not introduce the bound of a wildcard. -/
structure LookedUp (name : List Char) : Prop where
  isIdentifier : IsIdentifier name
  not_native : isNativeName (String.ofList name) = false
  not_variable : isTypeVariable name = false
  ne_keyword : ∀ bound : Bound, name ≠ bound.keyword.toList

/-- The name between `before` and `after` is found in a type: it has become a
    declared type with the package of the table, or it is left in the text of an
    array. -/
inductive Finds (table : WellKnown) (name before after : List Char) (t : TypeRef) : Prop where
  | declared {slots : List (String × TypeArg)}
      (h : (TypeRef.declared ((table.package? (String.ofList name)).getD "") (String.ofList name)
        slots).OccursIn t) : Finds table name before after t
  | array {text : List Char} (h : (TypeRef.native (String.ofList text)).OccursIn t)
      (harray : ['[', ']'] <:+ text) (hlies : LiesIn name before after text) :
      Finds table name before after t

variable {table : WellKnown} {name before after : List Char}

/-- A name that is looked up has none of the marks of a type. -/
theorem LookedUp.notMem (h : LookedUp name) {mark : Char}
    (hmark : mark ∈ ['<', '>', ',', '[', ']', '?', ' ']) : mark ∉ name :=
  fun hmem => ne_of_isNameChar (h.isIdentifier.isNameChar mark hmem) hmark rfl

/-- Trimming a text leaves the names in it. -/
theorem LookedUp.liesIn_trim (h : LookedUp name) {text : List Char} (hlies : LiesIn name before after text) :
    LiesIn name before after (Text.trim text) :=
  hlies.trim h.isIdentifier.ne_nil fun c hc => isSpace_eq_false_of_isNameChar (h.isIdentifier.isNameChar c hc)

/-- What is found in an argument is found in the type. -/
theorem Finds.slot {t : TypeRef} {argument : TypeArg} {key package simpleName : String}
    {slots : List (String × TypeArg)} (h : Finds table name before after t)
    (ht : argument.type? = some t) (hslot : (key, argument) ∈ slots) :
    Finds table name before after (.declared package simpleName slots) := by
  cases h with
  | declared h => exact .declared (.argument hslot ht h)
  | array h harray hlies => exact .array (.argument hslot ht h) harray hlies

/-- What has to hold of an argument that is read from a text with the name in it. -/
private def FindsIn (table : WellKnown) (name before after text : List Char) (argument : TypeArg) : Prop :=
  LiesIn name before after text → ∃ t, argument.type? = some t ∧ Finds table name before after t

private theorem finds_of_arguments {texts : List (List Char)} {arguments : List TypeArg} {p n : String}
    (harguments : List.Forall₂ (FindsIn table name before after) texts arguments) {text : List Char}
    (htext : text ∈ texts) (hlies : LiesIn name before after text) :
    Finds table name before after
      (.declared p n (arguments.mapIdx fun i argument => (slotKey i, argument))) := by
  obtain ⟨argument, hargument, hfinds⟩ := exists_of_forall₂ harguments text htext
  obtain ⟨t, ht, hfound⟩ := hfinds hlies
  obtain ⟨i, hi, rfl⟩ := List.getElem_of_mem hargument
  exact hfound.slot ht (List.mem_mapIdx.mpr ⟨i, hi, rfl⟩)

/-- The name lies in front of the arguments, where it is the name of the type, or
    in one of the arguments. -/
private theorem finds_of_splitsInto (hname : LookedUp name)
    (hdelimits : Delimits (isNameChar · = true) before after) {package raw : List Char}
    (hpackage : Text.Blank package) {parts : Split} {p n : String} {arguments : List TypeArg}
    (hsplit : SplitsInto raw parts) (hresolves : Resolves table package parts.base p n)
    (harguments : List.Forall₂ (FindsIn table name before after) parts.arguments arguments)
    (hlies : LiesIn name before after raw) :
    Finds table name before after
      (.declared p n (arguments.mapIdx fun i argument => (slotKey i, argument))) := by
  have hfront : LiesIn name before after parts.base → Finds table name before after
      (.declared p n (arguments.mapIdx fun i argument => (slotKey i, argument))) := by
    intro hbase
    obtain rfl := hbase.eq_of_forall hdelimits hresolves.isNameChar
    obtain ⟨rfl, rfl⟩ := hresolves.eq_listed hname.isIdentifier hpackage
    exact .declared .self
  cases hsplit with
  | plain => exact hfront hlies
  | @grouped front pieces _ _ _ _ hraw =>
    rw [hraw] at hlies
    rcases hlies.of_append_cons (hname.notMem (by simp)) with hlies | hlies
    · exact hfront (hname.liesIn_trim hlies)
    · have hinside := hlies.of_append_right hname.isIdentifier.ne_nil fun c hc => by
        obtain rfl := List.mem_singleton.mp hc
        exact hname.notMem (by simp)
      obtain ⟨piece, hpiece, hlies⟩ := hinside.of_intercalate hname.isIdentifier.ne_nil
        (hname.notMem (by simp))
      exact finds_of_arguments harguments (List.mem_map_of_mem hpiece) (hname.liesIn_trim hlies)

/-- In a wildcard the name lies in the bound, since it is not the keyword. -/
private theorem LookedUp.liesIn_subject (hname : LookedUp name)
    (hdelimits : Delimits (isNameChar · = true) before after) {text rest subject : List Char} {bound : Bound}
    (htext : Text.trim text = '?' :: rest)
    (hbound : Text.trim rest = bound.keyword.toList ++ ' ' :: subject)
    (hlies : LiesIn name before after text) : LiesIn name before after subject := by
  have hmark : LiesIn name before after ([] ++ '?' :: rest) := htext ▸ hname.liesIn_trim hlies
  rcases hmark.of_append_cons (hname.notMem (by simp)) with hnil | hrest
  · exact absurd hnil.word_eq_nil hname.isIdentifier.ne_nil
  · have hsides : LiesIn name before after (bound.keyword.toList ++ ' ' :: subject) :=
      hbound ▸ hname.liesIn_trim hrest
    rcases hsides.of_append_cons (hname.notMem (by simp)) with hkeyword | hsubject
    · exact absurd (hkeyword.eq_of_forall hdelimits (isNameChar_keyword bound)).symm (hname.ne_keyword bound)
    · exact hsubject

/-- The name does not lie in the text of a type variable. -/
private theorem LookedUp.not_liesIn_variable (hname : LookedUp name)
    (hdelimits : Delimits (isNameChar · = true) before after) {text : List Char}
    (hvariable : isTypeVariable text = true) : ¬ LiesIn name before after text := by
  intro hlies
  obtain ⟨letter, digits, rfl, hletter, hdigits⟩ := isTypeVariable_iff.mp hvariable
  have heq := hlies.eq_of_forall hdelimits (isIdentifier_of_isTypeVariable hletter hdigits).isNameChar
  have hnot := hname.not_variable
  rw [← heq, hvariable] at hnot
  cases hnot

private theorem findsIn_of_readArgument (hname : LookedUp name)
    (hdelimits : Delimits (isNameChar · = true) before after) {text : List Char} {argument : TypeArg}
    (h : readArgument table text = .ok argument) : FindsIn table name before after text argument := by
  induction h using readArgument_induction with
  | unbounded _ htext =>
    intro hlies
    -- There is no room for a name around the question mark.
    have hmark : LiesIn name before after ([] ++ '?' :: []) := htext ▸ hname.liesIn_trim hlies
    rcases hmark.of_append_cons (hname.notMem (by simp)) with hnil | hnil <;>
      exact absurd hnil.word_eq_nil hname.isIdentifier.ne_nil
  | typeVariable _ hvariable =>
    intro hlies
    exact absurd (hname.liesIn_trim hlies) (hname.not_liesIn_variable hdelimits hvariable)
  | native _ _ hnative =>
    intro hlies
    have htrim := hname.liesIn_trim hlies
    rcases hnative with hnative | harray
    -- A native type is one word, so it would be the name, which is not native.
    · have hchars := (isIdentifier_of_isNativeName hnative).isNameChar
      rw [String.toList_ofList] at hchars
      rw [htrim.eq_of_forall hdelimits hchars, hname.not_native] at hnative
      cases hnative
    · exact ⟨_, rfl, .array .self harray htrim⟩
  | declared _ hsplit hresolves harguments =>
    intro hlies
    have hinner := harguments.imp fun _ _ hread => hread.2
    exact ⟨_, rfl, finds_of_splitsInto hname hdelimits .nil hsplit hresolves hinner (hname.liesIn_trim hlies)⟩
  | wildcard _ htext hbound hsubject =>
    intro hlies
    obtain ⟨t, ht, hfinds⟩ := hsubject.2 (hname.liesIn_subject hdelimits htext hbound hlies)
    exact ⟨t, ht, hfinds⟩
  | boundedByVariable _ htext hbound hvariable =>
    intro hlies
    have hsubject := hname.liesIn_trim (hname.liesIn_subject hdelimits htext hbound hlies)
    exact absurd hsubject (hname.not_liesIn_variable hdelimits hvariable)

/-- Every name without dots in the text of a type is found in the type, at any depth. -/
theorem finds_of_parse (hname : LookedUp name) (hdelimits : Delimits (isNameChar · = true) before after)
    {package raw : String} (hpackage : isBlank package = true) {t : TypeRef}
    (h : parse table package raw = .ok t) (hraw : raw.toList = before ++ name ++ after) :
    Finds table name before after t := by
  obtain ⟨parts, p, n, arguments, hsplit, hresolves, harguments, rfl⟩ := parse_eq_ok_iff.mp h
  have hlies : LiesIn name before after (Text.trim raw.toList) := by
    rw [hraw]
    exact hname.liesIn_trim .refl
  exact finds_of_splitsInto hname hdelimits (isBlank_iff_blank.mp hpackage) hsplit hresolves
    (harguments.imp fun _ _ hread => findsIn_of_readArgument hname hdelimits hread) hlies

end JavaSource.TypeRef
