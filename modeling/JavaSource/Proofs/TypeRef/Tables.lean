import JavaSource.Proofs.TypeRef.Spelling
import JavaSource.TypeRef.Draft

namespace JavaSource

/-- The package that a table has for a simple name, which is empty if it has none. -/
def WellKnown.packageOf (table : WellKnown) (name : String) : String :=
  (table.package? name).getD ""

namespace TypeRef

/-- What stands in front of the last dot of a name. -/
def qualifierOf (base : List Char) : List Char :=
  ((Text.splitLastDot base).getD ([], base)).1

/-- What a declared type is made from: its package, if one is given, its name, and the
    texts of its slots, where one that is filled with a type has none. -/
structure Origin where
  package : List Char
  name : List Char
  slots : List (Option (List Char))

/-- The origin of a type that is read from a text, for a package. -/
def Origin.ofText (package raw : List Char) : Origin :=
  ⟨package, (partsOf raw).base, (partsOf raw).arguments.map some⟩

/-- The name is looked up in the table, if there is no package with it or in front of it. -/
def Origin.IsLookedUp (origin : Origin) : Prop :=
  Text.trim origin.package = [] ∧ qualifierOf origin.name = []

instance (origin : Origin) : Decidable origin.IsLookedUp :=
  inferInstanceAs (Decidable (_ ∧ _))

end TypeRef

mutual

/-- A type with another package for every name that is looked up. All other packages
    stay. -/
def TypeRef.repackage (f : String → String) (origin : TypeRef.Origin) : TypeRef → TypeRef
  | .native name => .native name
  | .declared package name slots =>
    .declared (if origin.IsLookedUp then f name else package) name
      (TypeArg.repackageEach f origin.slots slots)

/-- An argument with other packages for the names in its text that are looked up. -/
def TypeArg.repackage (f : String → String) (raw : List Char) : TypeArg → TypeArg
  | .type t => .type (t.repackage f (.ofText [] raw))
  | .placeholder text => .placeholder text
  | .wildcard bound t => .wildcard bound (t.repackage f (.ofText [] (TypeRef.subjectOf raw)))

/-- Arguments with other packages, where those that have no text stay as they are.
    -/
def TypeArg.repackageEach (f : String → String) :
    List (Option (List Char)) → List (String × TypeArg) → List (String × TypeArg)
  | some raw :: texts, (key, argument) :: slots =>
    (key, argument.repackage f raw) :: TypeArg.repackageEach f texts slots
  | none :: texts, slot :: slots => slot :: TypeArg.repackageEach f texts slots
  | _, slots => slots

end

mutual

/-- The names of a type that are looked up. -/
def TypeRef.lookedUp (origin : TypeRef.Origin) : TypeRef → List String
  | .native _ => []
  | .declared _ name slots =>
    (if origin.IsLookedUp then [name] else []) ++ TypeArg.lookedUpEach origin.slots slots

/-- The names of an argument that are looked up. -/
def TypeArg.lookedUp (raw : List Char) : TypeArg → List String
  | .type t => t.lookedUp (.ofText [] raw)
  | .placeholder _ => []
  | .wildcard _ t => t.lookedUp (.ofText [] (TypeRef.subjectOf raw))

def TypeArg.lookedUpEach : List (Option (List Char)) → List (String × TypeArg) → List String
  | some raw :: texts, (_, argument) :: slots =>
    argument.lookedUp raw ++ TypeArg.lookedUpEach texts slots
  | none :: texts, _ :: slots => TypeArg.lookedUpEach texts slots
  | _, _ => []

end

/-- A type with the packages that its text spells out, and with no others. -/
def TypeRef.asWritten (origin : TypeRef.Origin) (t : TypeRef) : TypeRef :=
  t.repackage (fun _ => "") origin

/-- An argument with the packages that its text spells out, and with no others. -/
def TypeArg.asWritten (raw : List Char) (argument : TypeArg) : TypeArg :=
  argument.repackage (fun _ => "") raw

mutual

/-- No package is printed. -/
theorem TypeRef.fullName_repackage (f : String → String) :
    ∀ (origin : TypeRef.Origin) (t : TypeRef), (t.repackage f origin).fullName = t.fullName
  | _, .native _ => rfl
  | origin, .declared _ _ slots =>
    TypeRef.fullName_eq_of_displayEach (TypeArg.displayEach_repackageEach f origin.slots slots)

/-- No package of an argument is printed. -/
theorem TypeArg.display_repackage (f : String → String) :
    ∀ (raw : List Char) (argument : TypeArg), (argument.repackage f raw).display = argument.display
  | raw, .type t => TypeRef.fullName_repackage f (.ofText [] raw) t
  | _, .placeholder _ => rfl
  | raw, .wildcard _ t => by
    rw [TypeArg.repackage, TypeArg.display, TypeArg.display, TypeRef.fullName_repackage f _ t]

theorem TypeArg.displayEach_repackageEach (f : String → String) :
    ∀ (texts : List (Option (List Char))) (slots : List (String × TypeArg)),
      TypeArg.displayEach (TypeArg.repackageEach f texts slots) = TypeArg.displayEach slots
  | [], _ => by simp only [TypeArg.repackageEach]
  | _ :: _, [] => by simp only [TypeArg.repackageEach]
  | some raw :: texts, (_, argument) :: slots => by
    rw [TypeArg.repackageEach, TypeArg.displayEach, TypeArg.displayEach, TypeArg.display_repackage f raw argument,
      TypeArg.displayEach_repackageEach f texts slots]
  | none :: texts, _ :: slots => by
    rw [TypeArg.repackageEach, TypeArg.displayEach, TypeArg.displayEach,
      TypeArg.displayEach_repackageEach f texts slots]

end

mutual

/-- Of two new packages the last one counts. -/
theorem TypeRef.repackage_repackage (f g : String → String) :
    ∀ (origin : TypeRef.Origin) (t : TypeRef),
      (t.repackage g origin).repackage f origin = t.repackage f origin
  | _, .native _ => rfl
  | origin, .declared _ _ slots => by
    rw [TypeRef.repackage, TypeRef.repackage, TypeRef.repackage,
      TypeArg.repackageEach_repackageEach f g origin.slots slots]
    split
    · rfl
    · rfl

/-- The packages given last to an argument are those it has. -/
theorem TypeArg.repackage_repackage (f g : String → String) :
    ∀ (raw : List Char) (argument : TypeArg),
      (argument.repackage g raw).repackage f raw = argument.repackage f raw
  | raw, .type t => congrArg TypeArg.type (TypeRef.repackage_repackage f g (.ofText [] raw) t)
  | _, .placeholder _ => rfl
  | raw, .wildcard bound t =>
    congrArg (TypeArg.wildcard bound) (TypeRef.repackage_repackage f g (.ofText [] (TypeRef.subjectOf raw)) t)

theorem TypeArg.repackageEach_repackageEach (f g : String → String) :
    ∀ (texts : List (Option (List Char))) (slots : List (String × TypeArg)),
      TypeArg.repackageEach f texts (TypeArg.repackageEach g texts slots) = TypeArg.repackageEach f texts slots
  | [], _ => by simp only [TypeArg.repackageEach]
  | _ :: _, [] => by simp only [TypeArg.repackageEach]
  | some raw :: texts, (_, argument) :: slots => by
    rw [TypeArg.repackageEach, TypeArg.repackageEach, TypeArg.repackageEach,
      TypeArg.repackage_repackage f g raw argument, TypeArg.repackageEach_repackageEach f g texts slots]
  | none :: texts, _ :: slots => by
    rw [TypeArg.repackageEach, TypeArg.repackageEach, TypeArg.repackageEach,
      TypeArg.repackageEach_repackageEach f g texts slots]

end

mutual

/-- Only the new packages of the names that are looked up matter. -/
theorem TypeRef.repackage_congr {f g : String → String} :
    ∀ (origin : TypeRef.Origin) (t : TypeRef), (∀ name ∈ t.lookedUp origin, f name = g name) →
      t.repackage f origin = t.repackage g origin
  | _, .native _, _ => rfl
  | origin, .declared _ _ slots, h => by
    rw [TypeRef.lookedUp, List.forall_mem_append] at h
    rw [TypeRef.repackage, TypeRef.repackage, TypeArg.repackageEach_congr origin.slots slots h.2]
    split
    · next hlooked =>
      rw [if_pos hlooked, List.forall_mem_singleton] at h
      rw [h.1]
    · rfl

/-- Only the packages of names that are looked up matter for an argument. -/
theorem TypeArg.repackage_congr {f g : String → String} :
    ∀ (raw : List Char) (argument : TypeArg), (∀ name ∈ argument.lookedUp raw, f name = g name) →
      argument.repackage f raw = argument.repackage g raw
  | raw, .type t, h => congrArg TypeArg.type (TypeRef.repackage_congr (.ofText [] raw) t h)
  | _, .placeholder _, _ => rfl
  | raw, .wildcard bound t, h =>
    congrArg (TypeArg.wildcard bound) (TypeRef.repackage_congr (.ofText [] (TypeRef.subjectOf raw)) t h)

theorem TypeArg.repackageEach_congr {f g : String → String} :
    ∀ (texts : List (Option (List Char))) (slots : List (String × TypeArg)),
      (∀ name ∈ TypeArg.lookedUpEach texts slots, f name = g name) →
        TypeArg.repackageEach f texts slots = TypeArg.repackageEach g texts slots
  | [], _, _ => by simp only [TypeArg.repackageEach]
  | _ :: _, [], _ => by simp only [TypeArg.repackageEach]
  | some raw :: texts, (_, argument) :: slots, h => by
    rw [TypeArg.lookedUpEach, List.forall_mem_append] at h
    rw [TypeArg.repackageEach, TypeArg.repackageEach, TypeArg.repackage_congr raw argument h.1,
      TypeArg.repackageEach_congr texts slots h.2]
  | none :: texts, _ :: slots, h => by
    rw [TypeArg.repackageEach, TypeArg.repackageEach, TypeArg.repackageEach_congr texts slots h]

end

namespace TypeRef

/-- White space around the text of a type does not count. -/
theorem Origin.ofText_trim (package raw : List Char) :
    Origin.ofText package (Text.trim raw) = .ofText package raw := by
  have hparts : partsOf (Text.trim raw) = partsOf raw := by rw [partsOf, partsOf, Text.trim_trim]
  rw [ofText, ofText, hparts]

/-- The origin of a text has the parts that the text splits into. -/
theorem Origin.ofText_eq (package : List Char) {raw : List Char} {parts : Split}
    (h : split (Text.trim raw) = .ok parts) :
    Origin.ofText package raw = ⟨package, parts.base, parts.arguments.map some⟩ := by
  rw [ofText, partsOf_eq (split_eq_ok_iff.mp h)]

/-- A table has no say in whether a name is refused, and none in its package unless the
    name is looked up. -/
theorem resolve_eq_map (a b : WellKnown) (origin : Origin) (raw : List Char) :
    resolve b origin.package raw origin.name = (resolve a origin.package raw origin.name).map fun resolved =>
      (if origin.IsLookedUp then b.packageOf resolved.2 else resolved.1, resolved.2) := by
  obtain ⟨package, base, slots⟩ := origin
  obtain htrim | ⟨c, hne, hfind⟩ | ⟨hne, hchars⟩ := name_cases base
  · rw [resolve_of_trim_eq_nil a package raw htrim, resolve_of_trim_eq_nil b package raw htrim]
    rfl
  · rw [resolve_of_find? a package raw hne hfind, resolve_of_find? b package raw hne hfind]
    rfl
  · rw [resolve_of_isNameChar a package raw hne hchars, resolve_of_isNameChar b package raw hne hchars]
    cases hparts : (Text.splitLastDot base).getD ([], base) with
    | mk qualifier name =>
      have hlooked : (⟨package, base, slots⟩ : Origin).IsLookedUp ↔
          (Text.trim package).isEmpty = true ∧ qualifier.isEmpty = true := by
        simp [Origin.IsLookedUp, qualifierOf, hparts]
      simp only [hlooked]
      -- The table is asked only behind all checks, where there is no package of either kind.
      by_cases hpackage : (Text.trim package).isEmpty = true
      · by_cases hname : name.isEmpty = true
        · simp [hpackage, hname, Except.map]
        · by_cases hqualifier : qualifier.isEmpty = true
          · simp [hpackage, hqualifier, hname, Except.map, WellKnown.packageOf]
          · simp [hpackage, hqualifier, hname, Except.map]
      · by_cases hdot : '.' ∈ base
        · simp [hpackage, hdot, Except.map]
        · simp [hpackage, hdot, Except.map]

/-- The slots keep their keys when each argument is changed. -/
theorem repackageEach_mapIdx (f : String → String) (key : Nat → String) {raws : List (List Char)}
    {arguments : List TypeArg} (h : raws.length = arguments.length) :
    TypeArg.repackageEach f (raws.map some) (arguments.mapIdx fun i argument => (key i, argument)) =
      (List.zipWith (fun raw argument => argument.repackage f raw) raws arguments).mapIdx
        fun i argument => (key i, argument) := by
  induction raws generalizing arguments key with
  | nil =>
    obtain rfl := List.length_eq_zero_iff.mp h.symm
    rfl
  | cons raw raws ih =>
    obtain ⟨argument, arguments, rfl⟩ := List.exists_cons_of_length_eq_add_one h.symm
    rw [List.map_cons, List.mapIdx_cons, TypeArg.repackageEach, List.zipWith_cons_cons, List.mapIdx_cons]
    exact congrArg _ (ih (fun i => key (i + 1)) (Nat.succ.inj h))

/-- What is read of a type with one table is what is read with the other one, up to the
    packages that are looked up, if that holds of the arguments. -/
private theorem parse_eq_map_of_arguments (a b : WellKnown) (package raw : String)
    (h : ∀ parts, split (Text.trim raw.toList) = .ok parts → ∀ inner ∈ parts.arguments,
      readArgument b inner = (readArgument a inner).map (·.repackage b.packageOf inner)) :
    parse b package raw =
      (parse a package raw).map (·.repackage b.packageOf (.ofText package.toList raw.toList)) := by
  rw [parse, parse, readDeclared_eq, readDeclared_eq]
  cases hsplit : split (Text.trim raw.toList) with
  | error reason => rfl
  | ok parts =>
    have hresolve := resolve_eq_map a b ⟨package.toList, parts.base, parts.arguments.map some⟩
    rw [Origin.ofText_eq _ hsplit]
    simp only at hresolve
    simp only [hresolve, mapM_eq_map_zipWith (h parts hsplit)]
    cases resolve a package.toList (Text.trim raw.toList) parts.base with
    | error error => rfl
    | ok resolved =>
      cases hread : parts.arguments.mapM (readArgument a) with
      | error error => rfl
      | ok arguments =>
        have hslots := repackageEach_mapIdx b.packageOf slotKey (mapM_eq_ok_iff.mp hread).length_eq
        simp only [Except.map, bind, Except.bind, pure, Except.pure, repackage, hslots]

/-- To read an argument with another table is to read it and give it other packages.
    -/
theorem readArgument_eq_map (a b : WellKnown) (text : List Char) :
    readArgument b text = (readArgument a text).map (·.repackage b.packageOf text) := by
  induction text using argument_induction with
  | typeVariable hvariable =>
    rw [readArgument_of_isTypeVariable a hvariable, readArgument_of_isTypeVariable b hvariable]
    rfl
  | unbounded htext hbound =>
    rw [readArgument_unbounded a htext hbound, readArgument_unbounded b htext hbound]
    split
    · rfl
    · rfl
  | @bounded text rest subject bound htext hbound ih =>
    rw [readArgument_bounded a htext hbound, readArgument_bounded b htext hbound, ih]
    cases readArgument a subject with
    | error error => rfl
    | ok argument =>
      -- Whether the bound is a type is the same for both tables, since repackaging keeps its form.
      cases argument with
      | type t =>
        simp only [Except.map, TypeArg.repackage, subjectOf_eq htext hbound]
      | placeholder _ | wildcard _ _ =>
        simp only [Except.map, TypeArg.repackage]
        split
        · rfl
        · rfl
  | @plain text hmark hvariable ih =>
    rw [readArgument_plain a hmark hvariable, readArgument_plain b hmark hvariable]
    split
    · rfl
    · have hparse := parse_eq_map_of_arguments a b "" (String.ofList (Text.trim text))
      rw [String.toList_ofList, Text.trim_trim, Origin.ofText_trim] at hparse
      rw [hparse ih]
      cases parse a "" (String.ofList (Text.trim text)) with
      | error error => rfl
      | ok t => rfl

/-- To read a type with another table is to read it and give it other packages. -/
theorem parse_eq_map (a b : WellKnown) (package raw : String) :
    parse b package raw =
      (parse a package raw).map (·.repackage b.packageOf (.ofText package.toList raw.toList)) :=
  parse_eq_map_of_arguments a b package raw fun _ _ inner _ => readArgument_eq_map a b inner

/-- The text that is read to fill a slot. -/
def SlotSource.text? : SlotSource → Option (List Char)
  | .text s => some s.toList
  | .type _ | .wildcard _ _ => none

/-- Only a slot that is filled from a text depends on the table. -/
theorem SlotSource.resolve_eq_map (a b : WellKnown) (source : SlotSource) :
    source.resolve b = (source.resolve a).map fun argument =>
      source.text?.elim argument fun raw => argument.repackage b.packageOf raw := by
  cases source with
  | text s => exact readArgument_eq_map a b s.toList
  | type t => rfl
  | wildcard bound t => rfl

namespace Draft

/-- The slots of the built type, each one with the text that fills it: those of the name,
    which the explicit ones replace or extend. -/
def texts (draft : Draft) : List (String × Option (List Char)) :=
  draft.slots.foldl (fun texts slot => Keyed.set slot.1 slot.2.text? texts)
    (((partsOf draft.simpleName.toList).arguments.map some).mapIdx fun i text => (slotKey i, text))

/-- The origin of the type that is built from a draft. -/
def origin (draft : Draft) : Origin :=
  ⟨draft.package.toList, (partsOf draft.simpleName.toList).base, draft.texts.map Prod.snd⟩

private theorem repackageEach_cons (f : String → String) (text : Option (List Char))
    (texts : List (Option (List Char))) (key : String) (argument : TypeArg) (slots : List (String × TypeArg)) :
    TypeArg.repackageEach f (text :: texts) ((key, argument) :: slots) =
      (key, text.elim argument fun raw => argument.repackage f raw) :: TypeArg.repackageEach f texts slots := by
  cases text with
  | none => rfl
  | some raw => rfl

/-- A slot that is set is changed as its own text says. -/
private theorem repackageEach_set (f : String → String) (key : String) (text : Option (List Char))
    (argument : TypeArg) {texts : List (String × Option (List Char))} {slots : List (String × TypeArg)}
    (h : texts.map Prod.fst = slots.map Prod.fst) :
    TypeArg.repackageEach f ((Keyed.set key text texts).map Prod.snd) (Keyed.set key argument slots) =
      Keyed.set key (text.elim argument fun raw => argument.repackage f raw)
        (TypeArg.repackageEach f (texts.map Prod.snd) slots) := by
  induction texts generalizing slots with
  | nil =>
    obtain rfl := List.map_eq_nil_iff.mp h.symm
    exact repackageEach_cons f text [] key argument []
  | cons first texts ih =>
    cases slots with
    | nil => cases h
    | cons slot slots =>
      obtain ⟨hkey, hrest⟩ := List.cons.inj h
      rw [List.map_cons, repackageEach_cons]
      by_cases hset : slot.1 = key
      · rw [Keyed.set, if_pos (hkey.trans hset), Keyed.set, if_pos hset, Keyed.set, if_pos hset]
        exact repackageEach_cons f text (texts.map Prod.snd) key argument slots
      · rw [Keyed.set, if_neg (hkey.trans_ne hset), Keyed.set, if_neg hset, Keyed.set, if_neg hset, ← ih hrest]
        exact repackageEach_cons f first.2 _ slot.1 slot.2 _

/-- To fill slots with another table is to fill them and give other packages to
    those with a text. -/
theorem fill_eq_map (a b : WellKnown) (rest : List (String × SlotSource))
    {texts : List (String × Option (List Char))} {slots : List (String × TypeArg)}
    (h : texts.map Prod.fst = slots.map Prod.fst) :
    fill b rest (TypeArg.repackageEach b.packageOf (texts.map Prod.snd) slots) =
      (fill a rest slots).map (TypeArg.repackageEach b.packageOf
        ((rest.foldl (fun texts slot => Keyed.set slot.1 slot.2.text? texts) texts).map Prod.snd)) := by
  induction rest generalizing texts slots with
  | nil => rfl
  | cons first rest ih =>
    obtain ⟨key, source⟩ := first
    rw [fill, fill, source.resolve_eq_map a b]
    cases source.resolve a with
    | error error => rfl
    | ok argument =>
      have hkeys : (Keyed.set key source.text? texts).map Prod.fst =
          (Keyed.set key argument slots).map Prod.fst := by
        rw [Keyed.keys_set, Keyed.keys_set, h]
      have hrest := ih hkeys
      rw [repackageEach_set _ key source.text? argument h] at hrest
      exact hrest

/-- To build a type with another table is to build it and give it other packages. -/
theorem build_eq_map (a b : WellKnown) (draft : Draft) :
    draft.build b = (draft.build a).map (·.repackage b.packageOf draft.origin) := by
  cases hparse : parse a draft.package draft.simpleName with
  | error error =>
    have hother := parse_eq_map a b draft.package draft.simpleName
    rw [hparse] at hother
    rw [build, build, hparse, hother]
    rfl
  | ok t =>
    have hother := parse_eq_map a b draft.package draft.simpleName
    obtain ⟨parts, p, n, arguments, hsplit, _, harguments, rfl⟩ := parse_eq_ok_iff.mp hparse
    have hparts := partsOf_eq hsplit
    have hkeys : ((parts.arguments.map some).mapIdx fun i text => (slotKey i, text)).map Prod.fst =
        (arguments.mapIdx fun i argument => (slotKey i, argument)).map Prod.fst := by
      rw [map_fst_mapIdx, map_fst_mapIdx, List.length_map, harguments.length_eq]
    have hfill := fill_eq_map a b draft.slots hkeys
    rw [map_snd_mapIdx] at hfill
    have horigin : draft.origin = ⟨draft.package.toList, parts.base, draft.texts.map Prod.snd⟩ := by
      rw [origin, hparts]
    rw [hparse, Origin.ofText, hparts] at hother
    rw [build_of_parse_eq_declared hparse, build_of_parse_eq_declared hother, horigin, hfill, texts, hparts]
    cases fill a draft.slots (arguments.mapIdx fun i argument => (slotKey i, argument)) <;> rfl

end Draft

/-- The results of reading the same text twice: it is refused both times with the same
    error, or what is read is the same in the given respect. -/
inductive Alike {α : Type} (same : α → α → Prop) : Except Error α → Except Error α → Prop where
  | refused (error : Error) : Alike same (.error error) (.error error)
  | read {x y : α} (h : same x y) : Alike same (.ok x) (.ok y)

/-- Two values that differ in nothing but the packages that two tables have for the names
    that are looked up, and so not at all if the tables have the same packages for them. -/
structure SameButPackages {α : Type} (a b : WellKnown) (print : α → String) (asWritten : α → α)
    (lookedUp : α → List String) (x y : α) : Prop where
  print : print x = print y
  asWritten : asWritten x = asWritten y
  eq_of_agree : (∀ name ∈ lookedUp x, a.package? name = b.package? name) → x = y

/-- What is read with any table is what is read with another one, with its own packages
    in place of those that were looked up. -/
private theorem alike_of_eq_map {α : Type} {read : WellKnown → Except Error α} {print : α → String}
    {repackage : (String → String) → α → α} {lookedUp : α → List String}
    (hread : ∀ a b, read b = (read a).map (repackage b.packageOf))
    (hprint : ∀ f x, print (repackage f x) = print x)
    (htwice : ∀ f g x, repackage f (repackage g x) = repackage f x)
    (hcongr : ∀ f g x, (∀ name ∈ lookedUp x, f name = g name) → repackage f x = repackage g x)
    (a b : WellKnown) :
    Alike (SameButPackages a b print (repackage fun _ => "") lookedUp) (read a) (read b) := by
  rw [hread a b]
  cases hx : read a with
  | error error => exact .refused error
  | ok x =>
    refine .read ⟨(hprint _ x).symm, (htwice _ _ x).symm, fun hagree => ?_⟩
    have hself := hread a a
    rw [hx] at hself
    calc x = repackage a.packageOf x := Except.ok.inj hself
      _ = repackage b.packageOf x := hcongr _ _ x fun name hname => by
        rw [WellKnown.packageOf, WellKnown.packageOf, hagree name hname]

/-- A table gives packages to the names that have none in the text, and has no other say in
    what is read: not in what is refused and why, nor in the shape of a type, its names, its
    slots, its native types and placeholders, or the packages that are spelled out. -/
theorem tables_only_give_packages (a b : WellKnown) :
    (∀ package raw : String,
      Alike (SameButPackages a b fullName (asWritten (.ofText package.toList raw.toList))
          (lookedUp (.ofText package.toList raw.toList)))
        (parse a package raw) (parse b package raw)) ∧
    (∀ text : String,
      Alike (SameButPackages a b TypeArg.display (TypeArg.asWritten text.toList)
          (TypeArg.lookedUp text.toList))
        (TypeArg.parse a text) (TypeArg.parse b text)) ∧
    ∀ draft : Draft,
      Alike (SameButPackages a b fullName (asWritten draft.origin) (lookedUp draft.origin))
        (draft.build a) (draft.build b) := by
  refine ⟨fun package raw => ?_, fun text => ?_, fun draft => ?_⟩
  · exact alike_of_eq_map (fun a b => parse_eq_map a b package raw)
      (fun f => fullName_repackage f _) (fun f g => repackage_repackage f g _)
      (fun f g => repackage_congr _) a b
  · have hread : ∀ a b, TypeArg.parse b text =
        (TypeArg.parse a text).map (TypeArg.repackage b.packageOf text.toList) :=
      fun a b => readArgument_eq_map a b text.toList
    exact alike_of_eq_map hread (fun f => TypeArg.display_repackage f _) (fun f g => TypeArg.repackage_repackage f g _)
      (fun f g => TypeArg.repackage_congr _) a b
  · exact alike_of_eq_map (fun a b => draft.build_eq_map a b)
      (fun f => fullName_repackage f _) (fun f g => repackage_repackage f g _)
      (fun f g => repackage_congr _) a b

example : (parse .standard "" "Map<.UUID, ? extends acme.List<Page>>").toOption.map
      (lookedUp (.ofText [] "Map<.UUID, ? extends acme.List<Page>>".toList)) = some ["Map", "UUID", "Page"] := by
  decide +kernel

end TypeRef

end JavaSource
