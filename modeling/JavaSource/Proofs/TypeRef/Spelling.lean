import JavaSource.Proofs.TypeRef.Induction

namespace JavaSource

namespace Text

/-- A text without its white space. -/
def spaceless (text : List Char) : List Char :=
  text.filter (! isSpace ·)

@[simp] theorem spaceless_append (first second : List Char) :
    spaceless (first ++ second) = spaceless first ++ spaceless second :=
  List.filter_append first second

@[simp] theorem spaceless_cons {c : Char} (hc : isSpace c = false) (rest : List Char) :
    spaceless (c :: rest) = c :: spaceless rest :=
  List.filter_cons_of_pos (by simpa using hc)

@[simp] theorem spaceless_space (rest : List Char) : spaceless (' ' :: rest) = spaceless rest :=
  List.filter_cons_of_neg (by decide)

theorem spaceless_of_blank {text : List Char} (h : Blank text) : spaceless text = [] :=
  List.filter_eq_nil_iff.mpr fun c hc => by simp [h c hc]

@[simp] theorem spaceless_trim (text : List Char) : spaceless (trim text) = spaceless text := by
  obtain ⟨left, right, hleft, hright, htext⟩ := exists_blank_append_trim text
  conv_rhs => rw [htext]
  simp [spaceless_of_blank hleft, spaceless_of_blank hright]

/-- White space is taken out of joined texts and of what joins them. -/
theorem spaceless_intercalate (separator : List Char) (texts : List (List Char)) :
    spaceless (separator.intercalate texts) = (spaceless separator).intercalate (texts.map spaceless) := by
  induction texts with
  | nil => rfl
  | cons first more ih =>
    cases more with
    | nil => simp
    | cons second more =>
      rw [List.intercalate_cons_cons, spaceless_append, spaceless_append, ih, List.map_cons,
        List.map_cons, List.map_cons, List.intercalate_cons_cons]

end Text

namespace TypeRef

/-- The name and the arguments of a type, as its text has them. -/
def partsOf (raw : List Char) : Split :=
  (split (Text.trim raw)).toOption.getD ⟨Text.trim raw, []⟩

/-- The parts of a text are what it splits into. -/
theorem partsOf_eq {raw : List Char} {parts : Split} (h : SplitsInto (Text.trim raw) parts) :
    partsOf raw = parts := by
  rw [partsOf, split_eq_ok_iff.mpr h]
  rfl

/-- The text of the bound of a wildcard. -/
def subjectOf (text : List Char) : List Char :=
  ((boundOf (Text.trim (Text.trim text).tail)).map Prod.snd).getD []

/-- The text of the bound is what follows its keyword. -/
theorem subjectOf_eq {text rest subject : List Char} {bound : Bound} (htext : Text.trim text = '?' :: rest)
    (hbound : Text.trim rest = bound.keyword.toList ++ ' ' :: subject) : subjectOf text = subject := by
  rw [subjectOf, htext, List.tail_cons, boundOf_eq_some_iff.mpr hbound]
  rfl

/-- Arguments behind a name, if there are any. -/
def angled : List (List Char) → List Char
  | [] => []
  | first :: more => '<' :: (", ".toList.intercalate (first :: more) ++ ['>'])

/-- A type is printed as its name with what is printed of its arguments. -/
theorem fullName_eq_angled (package name : String) (slots : List (String × TypeArg)) :
    (declared package name slots).fullName.toList =
      name.toList ++ angled ((TypeArg.displayEach slots).map String.toList) := by
  cases slots with
  | nil => simp [fullName, TypeArg.displayEach, angled]
  | cons slot slots => simp [fullName, TypeArg.displayEach, angled, String.toList_intercalate]

/-- Types with one name and with arguments that are printed alike are printed alike.
    -/
theorem fullName_eq_of_displayEach {package package' name : String} {slots slots' : List (String × TypeArg)}
    (h : TypeArg.displayEach slots = TypeArg.displayEach slots') :
    (declared package name slots).fullName = (declared package' name slots').fullName := by
  rw [← String.toList_inj, fullName_eq_angled, fullName_eq_angled, h]

end TypeRef

mutual

/-- A type written back the way its text has it: with the package for every name
    that has a dot in the text, and without it for the others. -/
def TypeRef.spell (raw : List Char) : TypeRef → List Char
  | .native name => name.toList
  | .declared package name slots =>
    (if '.' ∈ (TypeRef.partsOf raw).base then (TypeRef.declared package name slots).qualifiedName.toList
      else name.toList) ++
      TypeRef.angled (TypeArg.spellEach (TypeRef.partsOf raw).arguments slots)

/-- An argument written back the way its text has it. -/
def TypeArg.spell (raw : List Char) : TypeArg → List Char
  | .type t => t.spell raw
  | .placeholder text => text.toList
  | .wildcard bound t => '?' :: ' ' :: (bound.keyword.toList ++ ' ' :: t.spell (TypeRef.subjectOf raw))

def TypeArg.spellEach (raws : List (List Char)) : List (String × TypeArg) → List (List Char)
  | [] => []
  | (_, argument) :: slots => argument.spell (raws.headD []) :: TypeArg.spellEach raws.tail slots

end

mutual

/-- The names of the declared types, as the text has them. -/
def TypeRef.writtenNames (raw : List Char) : TypeRef → List (List Char)
  | .native _ => []
  | .declared _ _ slots =>
    (TypeRef.partsOf raw).base :: TypeArg.writtenNamesEach (TypeRef.partsOf raw).arguments slots

/-- The names in the text of an argument. -/
def TypeArg.writtenNames (raw : List Char) : TypeArg → List (List Char)
  | .type t => t.writtenNames raw
  | .placeholder _ => []
  | .wildcard _ t => t.writtenNames (TypeRef.subjectOf raw)

def TypeArg.writtenNamesEach (raws : List (List Char)) : List (String × TypeArg) → List (List Char)
  | [] => []
  | (_, argument) :: slots =>
    argument.writtenNames (raws.headD []) ++ TypeArg.writtenNamesEach raws.tail slots

end

namespace TypeRef

/-- A name that begins with its only dot has no qualifier in front of the dot. -/
def Unqualified (name : List Char) : Prop :=
  ∃ rest, name = '.' :: rest ∧ '.' ∉ rest

private theorem Resolves.spell_eq {table : WellKnown} {package base : List Char} {p n : String}
    (h : Resolves table package base p n) (hbase : ¬ Unqualified base) (slots : List (String × TypeArg)) :
    (if '.' ∈ base then (declared p n slots).qualifiedName.toList else n.toList) = base := by
  cases h with
  | given hname _ => rw [if_neg hname.dot_notMem, String.toList_ofList]
  | listed hname _ => rw [if_neg hname.dot_notMem, String.toList_ofList]
  | leadingDot hname _ => exact absurd ⟨_, rfl, hname.dot_notMem⟩ hbase
  | @qualified qualifier name hname hne _ _ =>
    have hpackage : String.ofList qualifier ≠ "" := by simpa using hne
    rw [if_pos (by simp), qualifiedName_of_ne_empty hpackage]
    simp

/-- What the arguments of a text have to give for the text to be given back. -/
private def SpellsBack (raw : List Char) (argument : TypeArg) : Prop :=
  (∀ name ∈ argument.writtenNames raw, ¬ Unqualified name) →
    Text.spaceless (argument.spell raw) = Text.spaceless raw

private theorem spaceless_spellEach {raws : List (List Char)} {slots : List (String × TypeArg)}
    (h : List.Forall₂ (fun raw slot => SpellsBack raw slot.2) raws slots)
    (hnames : ∀ name ∈ TypeArg.writtenNamesEach raws slots, ¬ Unqualified name) :
    (TypeArg.spellEach raws slots).map Text.spaceless = raws.map Text.spaceless := by
  induction h with
  | nil => rfl
  | @cons raw slot raws slots hslot _ ih =>
    have hfirst := hslot fun name hname => hnames name (List.mem_append_left _ hname)
    have hrest := ih fun name hname => hnames name (List.mem_append_right _ hname)
    rw [TypeArg.spellEach, List.map_cons, List.map_cons, ← hrest, ← hfirst]
    rfl

private theorem spaceless_angled {texts : List (List Char)} (hne : texts ≠ []) :
    Text.spaceless (angled texts) =
      '<' :: ([','].intercalate (texts.map Text.spaceless) ++ ['>']) := by
  cases texts with
  | nil => exact absurd rfl hne
  | cons first more =>
    rw [angled, Text.spaceless_cons rfl, Text.spaceless_append, Text.spaceless_intercalate]
    rfl

/-- A name with arguments is given back if its arguments are. -/
private theorem spaceless_spell_declared {table : WellKnown} {package raw : List Char} {parts : Split}
    {p n : String} {slots : List (String × TypeArg)} (hsplit : SplitsInto (Text.trim raw) parts)
    (hresolves : Resolves table package parts.base p n)
    (hslots : List.Forall₂ (fun inner slot => SpellsBack inner slot.2) parts.arguments slots)
    (hnames : ∀ name ∈ (declared p n slots).writtenNames raw, ¬ Unqualified name) :
    Text.spaceless ((declared p n slots).spell raw) = Text.spaceless raw := by
  rw [writtenNames, partsOf_eq hsplit, List.forall_mem_cons] at hnames
  have heach := spaceless_spellEach hslots hnames.2
  rw [spell, partsOf_eq hsplit, hresolves.spell_eq hnames.1, Text.spaceless_append,
    ← Text.spaceless_trim raw]
  cases hsplit with
  | plain =>
    cases hslots
    simp [TypeArg.spellEach, angled, Text.spaceless]
  | @grouped front pieces _ hne _ _ hraw =>
    have htrimmed : (pieces.map Text.trim).map Text.spaceless = pieces.map Text.spaceless := by
      simp
    rw [htrimmed] at heach
    have hnonempty : TypeArg.spellEach (pieces.map Text.trim) slots ≠ [] := by
      intro hnil
      rw [hnil] at heach
      exact hne (by simpa using heach.symm)
    rw [spaceless_angled hnonempty, heach, hraw, Text.spaceless_trim, Text.spaceless_append,
      Text.spaceless_cons rfl, Text.spaceless_append, Text.spaceless_intercalate]
    rfl

/-- Only the mark, the keyword and the bound of a wildcard are not white space. -/
private theorem spaceless_wildcard {text rest subject : List Char} {bound : Bound}
    (htext : Text.trim text = '?' :: rest)
    (hbound : Text.trim rest = bound.keyword.toList ++ ' ' :: subject) :
    Text.spaceless text = '?' :: (Text.spaceless bound.keyword.toList ++ Text.spaceless subject) := by
  rw [← Text.spaceless_trim text, htext, Text.spaceless_cons rfl, ← Text.spaceless_trim rest, hbound,
    Text.spaceless_append, Text.spaceless_space]

/-- An argument that is read is written back as its text. -/
theorem spellsBack_of_readArgument {table : WellKnown} {text : List Char} {argument : TypeArg}
    (h : readArgument table text = .ok argument) : SpellsBack text argument := by
  induction h using readArgument_induction with
  | @unbounded text _ htext =>
    intro _
    rw [← Text.spaceless_trim text, htext]
    rfl
  | @typeVariable text _ _ =>
    intro _
    rw [TypeArg.spell, String.toList_ofList, Text.spaceless_trim]
  | @native text _ _ _ =>
    intro _
    rw [TypeArg.spell, spell, String.toList_ofList, Text.spaceless_trim]
  | declared _ hsplit hresolves harguments =>
    have hslots := forall₂_slots (harguments.imp fun _ _ hinner => hinner.2)
    exact spaceless_spell_declared hsplit hresolves hslots
  | wildcard _ htext hbound hsubject =>
    intro hnames
    rw [TypeArg.writtenNames, subjectOf_eq htext hbound] at hnames
    have hinner : Text.spaceless (TypeRef.spell _ _) = _ := hsubject.2 hnames
    rw [TypeArg.spell, subjectOf_eq htext hbound, spaceless_wildcard htext hbound,
      Text.spaceless_cons rfl, Text.spaceless_space, Text.spaceless_append, Text.spaceless_space, hinner]
  | @boundedByVariable _ rest subject bound _ htext hbound _ =>
    intro _
    have hspell : ("? " ++ bound.keyword ++ " " ++ String.ofList (Text.trim subject)).toList =
        '?' :: ' ' :: (bound.keyword.toList ++ ' ' :: Text.trim subject) := by
      simp
    rw [TypeArg.spell, hspell, spaceless_wildcard htext hbound, Text.spaceless_cons rfl,
      Text.spaceless_space, Text.spaceless_append, Text.spaceless_space, Text.spaceless_trim]

/-- Reading loses no character of a type and invents none, at any depth: written
    back with the packages that its text spells out, the type is the text again
    up to white space. Names that have nothing in front of their only dot are
    the exception, since their dot is not kept. -/
theorem parse_spell {table : WellKnown} {package raw : String} {t : TypeRef}
    (h : parse table package raw = .ok t)
    (hnames : ∀ name ∈ t.writtenNames raw.toList, ¬ Unqualified name) :
    Text.spaceless (t.spell raw.toList) = Text.spaceless raw.toList := by
  obtain ⟨parts, p, n, arguments, hsplit, hresolves, harguments, rfl⟩ := parse_eq_ok_iff.mp h
  have hslots := forall₂_slots (harguments.imp fun _ _ hread => spellsBack_of_readArgument hread)
  exact spaceless_spell_declared hsplit hresolves hslots hnames

/-- A map from qualified keys to arrays, and what is read from it. -/
def mapOfArrays : TypeRef :=
  .declared "java.util" "Map" [("T", .type (.declared "com.acme" "Key" [])),
    ("U", .wildcard .extends (.declared "java.util" "List" [("T", .type (.native "UUID[]"))]))]

/-- The qualified name keeps its package, the others have none, and all white space
    is gone. -/
theorem parse_spell_mapOfArrays : parse .standard "" " Map< com.acme.Key, ?extends List <UUID[]>>" =
      .ok mapOfArrays ∧
    Text.spaceless (mapOfArrays.spell " Map< com.acme.Key, ?extends List <UUID[]>>".toList) =
      "Map<com.acme.Key,?extendsList<UUID[]>>".toList := by
  have hread : parse .standard "" " Map< com.acme.Key, ?extends List <UUID[]>>" = .ok mapOfArrays :=
    toOption_eq_some_iff.mp (by decide +kernel)
  have hwritten : mapOfArrays.writtenNames " Map< com.acme.Key, ?extends List <UUID[]>>".toList =
      ["Map".toList, "com.acme.Key".toList, "List".toList] := by decide +kernel
  have hnames : ∀ name ∈ mapOfArrays.writtenNames " Map< com.acme.Key, ?extends List <UUID[]>>".toList,
      ¬ Unqualified name := by
    rw [hwritten]
    rintro name hname ⟨rest, rfl, _⟩
    simp at hname
  refine ⟨hread, ?_⟩
  rw [parse_spell hread hnames]
  decide +kernel

/-- A dot in front of a name makes no difference: the name is looked up in the
    table as it is without the dot. -/
theorem parse_leadingDot (table : WellKnown) {name : List Char} (hname : IsIdentifier name) :
    parse table "" (String.ofList ('.' :: name)) = parse table "" (String.ofList name) := by
  have hblank : Text.Blank "".toList := .nil
  rw [parse_name (.leadingDot hname hblank), parse_name (.listed hname hblank)]

/-- So the dot is lost, and a package may even take its place. -/
theorem spell_leadingDot_lost :
    (∃ t, parse .standard "" ".Item" = .ok t ∧ t.qualifiedName = "Item" ∧
      Text.spaceless (t.spell ".Item".toList) ≠ Text.spaceless ".Item".toList) ∧
    ∃ t, parse .standard "" ".UUID" = .ok t ∧ t.qualifiedName = "java.util.UUID" ∧
      Text.spaceless (t.spell ".UUID".toList) ≠ Text.spaceless ".UUID".toList := by
  refine ⟨⟨.declared "" "Item" [], toOption_eq_some_iff.mp (by decide +kernel), rfl, by decide +kernel⟩,
    ⟨.declared "java.util" "UUID" [], toOption_eq_some_iff.mp (by decide +kernel), rfl, by decide +kernel⟩⟩

end TypeRef

end JavaSource
