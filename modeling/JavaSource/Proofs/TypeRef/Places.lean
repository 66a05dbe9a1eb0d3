import JavaSource.Proofs.CompilationUnit.Mentions
import JavaSource.Proofs.TypeRef.Tables

namespace JavaSource

/-- The type in an argument together with what it is made from. A placeholder has none. -/
def TypeArg.inside? (raw : List Char) : TypeArg → Option (TypeRef.Origin × TypeRef)
  | .type t => some (.ofText [] raw, t)
  | .placeholder _ => none
  | .wildcard _ t => some (.ofText [] (TypeRef.subjectOf raw), t)

/-- The origin of the type in an argument does not change the type. -/
theorem TypeArg.map_snd_inside? (raw : List Char) (argument : TypeArg) :
    (argument.inside? raw).map Prod.snd = argument.type? := by
  cases argument with
  | type t => rfl
  | placeholder text => rfl
  | wildcard bound t => rfl

namespace TypeRef

/-- A place in a type, by the slots that lead down to it: which type stands there, and what
    it is made from. -/
inductive PlacedIn (origin : Origin) (node : TypeRef) : Origin → TypeRef → Prop where
  | self : PlacedIn origin node origin node
  | argument {whole inside : Origin} {package name key : String} {slots : List (String × TypeArg)}
      {raw : List Char} {argument : TypeArg} {t : TypeRef}
      (hslot : (some raw, (key, argument)) ∈ whole.slots.zip slots)
      (hinside : argument.inside? raw = some (inside, t)) (h : PlacedIn origin node inside t) :
      PlacedIn origin node whole (.declared package name slots)

/-- Every type inside has a place, and at every place the name is resolved as it is
    written there. -/
structure ResolvedFrom (table : WellKnown) (whole : Origin) (t : TypeRef) : Prop where
  placed : ∀ node, node.OccursIn t → ∃ origin, PlacedIn origin node whole t
  resolves : ∀ origin p n slots, PlacedIn origin (declared p n slots) whole t →
    Resolves table origin.package origin.name p n

variable {table : WellKnown}

/-- A native type has nothing to resolve. -/
theorem resolvedFrom_native (whole : Origin) (name : String) : ResolvedFrom table whole (.native name) := by
  refine ⟨?_, nofun⟩
  rintro node ⟨⟩
  exact ⟨whole, .self⟩

/-- Texts that are all there are paired as they are. -/
theorem mem_zip_map_some {α β : Type} {xs : List α} {ys : List β} {x : α} {y : β} :
    (some x, y) ∈ (xs.map some).zip ys ↔ (x, y) ∈ xs.zip ys := by
  simp [List.zip_map_left]

/-- A declared type is resolved at every place if its name is, and every type in its slots. -/
theorem resolvedFrom_declared {whole : Origin} {raws : List (List Char)} {p n : String}
    {slots : List (String × TypeArg)} (hresolves : Resolves table whole.package whole.name p n)
    (hraws : whole.slots = raws.map some)
    (hslots : List.Forall₂ (fun raw slot => ∀ inside t, slot.2.inside? raw = some (inside, t) →
      ResolvedFrom table inside t) raws slots) :
    ResolvedFrom table whole (.declared p n slots) := by
  obtain ⟨hlength, hzip⟩ := List.forall₂_iff_zip.mp hslots
  constructor
  · intro node hnode
    cases hnode with
    | self => exact ⟨whole, .self⟩
    | @argument _ _ key _ argument t hslot ht hnode =>
      have hzipped : (key, argument) ∈ (raws.zip slots).map Prod.snd := by
        rwa [List.map_snd_zip hlength.ge]
      obtain ⟨⟨raw, slot⟩, hmem, rfl⟩ := List.mem_map.mp hzipped
      rw [← argument.map_snd_inside? raw, Option.map_eq_some_iff] at ht
      obtain ⟨⟨inside, _⟩, hinside, rfl⟩ := ht
      obtain ⟨origin, hplaced⟩ := (hzip hmem inside _ hinside).placed node hnode
      rw [← mem_zip_map_some, ← hraws] at hmem
      exact ⟨origin, .argument hmem hinside hplaced⟩
  · intro origin p' n' slots' h
    cases h with
    | self => exact hresolves
    | argument hslot hinside h =>
      rw [hraws, mem_zip_map_some] at hslot
      exact (hzip hslot _ _ hinside).resolves _ _ _ _ h

private theorem resolvedFrom_of_parts {package raw : List Char} {parts : Split} {p n : String}
    {arguments : List TypeArg} (hsplit : SplitsInto (Text.trim raw) parts)
    (hresolves : Resolves table package parts.base p n)
    (harguments : List.Forall₂ (fun inner argument => ∀ inside t, argument.inside? inner = some (inside, t) →
      ResolvedFrom table inside t) parts.arguments arguments) :
    ResolvedFrom table (.ofText package raw)
      (.declared p n (arguments.mapIdx fun i argument => (slotKey i, argument))) := by
  rw [Origin.ofText_eq package (split_eq_ok_iff.mpr hsplit)]
  exact resolvedFrom_declared hresolves rfl (forall₂_slots harguments)

/-- The type in an argument that is read is resolved from its text. -/
theorem resolvedFrom_of_readArgument {text : List Char} {argument : TypeArg}
    (h : readArgument table text = .ok argument) :
    ∀ inside t, argument.inside? text = some (inside, t) → ResolvedFrom table inside t := by
  induction h using readArgument_induction with
  | unbounded => exact nofun
  | typeVariable => exact nofun
  | boundedByVariable => exact nofun
  | native =>
    rintro inside t ⟨⟩
    exact resolvedFrom_native _ _
  | declared _ hsplit hresolves harguments =>
    rintro inside t ⟨⟩
    exact resolvedFrom_of_parts hsplit hresolves (harguments.imp fun _ _ hinner => hinner.2)
  | wildcard _ htext hbound hsubject =>
    rintro inside t ⟨⟩
    rw [subjectOf_eq htext hbound]
    exact hsubject.2 _ _ rfl

/-- One table resolves the names of a type at every place, whatever slots and bounds lead
    there. -/
theorem resolvedFrom_of_parse {package raw : String} {t : TypeRef} (h : parse table package raw = .ok t) :
    ResolvedFrom table (.ofText package.toList raw.toList) t := by
  obtain ⟨parts, p, n, arguments, hsplit, hresolves, harguments, rfl⟩ := parse_eq_ok_iff.mp h
  exact resolvedFrom_of_parts hsplit hresolves (harguments.imp fun _ _ hread => resolvedFrom_of_readArgument hread)

/-- The package of a name: the one that is given with it, or the text in front of its last
    dot, or else what is looked up for it. -/
structure Packaged (lookup : String → String) (package base : List Char) (p n : String) : Prop where
  given : ¬ Text.Blank package → p = String.ofList (Text.trim package)
  qualified : ∀ qualifier, qualifier ≠ [] → base = qualifier ++ '.' :: n.toList → p = String.ofList qualifier
  lookedUp : Text.Blank package → (∀ qualifier, qualifier ≠ [] → base ≠ qualifier ++ '.' :: n.toList) →
    p = lookup n

/-- A name without a dot is looked up, unless a package is given with it. -/
theorem Packaged.eq_lookup {lookup : String → String} {package base : List Char} {p n : String}
    (h : Packaged lookup package base p n) (hpackage : Text.Blank package) (hdot : '.' ∉ base) :
    p = lookup n := by
  refine h.lookedUp hpackage ?_
  rintro qualifier - rfl
  simp at hdot

private theorem ne_qualified {base : List Char} (h : IsIdentifier base) (qualifier name : List Char) :
    base ≠ qualifier ++ '.' :: name := by
  rintro rfl
  exact h.dot_notMem (by simp)

/-- A resolved name is in the package that is given, written or looked up. -/
theorem Resolves.packaged {package base : List Char} {p n : String} (h : Resolves table package base p n) :
    Packaged table.packageOf package base p n := by
  cases h with
  | given hname hpackage =>
    exact ⟨fun _ => rfl, fun _ _ heq => absurd heq (ne_qualified hname _ _), fun hblank => absurd hblank hpackage⟩
  | listed hname hblank =>
    exact ⟨fun hpackage => absurd hblank hpackage, fun _ _ heq => absurd heq (ne_qualified hname _ _),
      fun _ _ => rfl⟩
  | @leadingDot name hname hblank =>
    refine ⟨fun hpackage => absurd hblank hpackage, ?_, fun _ _ => rfl⟩
    intro qualifier hne heq
    rw [String.toList_ofList] at heq
    exact absurd (List.append_cancel_right ((List.nil_append _).trans heq)).symm hne
  | @qualified qualifier name hname hne _ hblank =>
    refine ⟨fun hpackage => absurd hblank hpackage, ?_, fun _ hnone => ?_⟩
    · intro qualifier' _ heq
      rw [String.toList_ofList] at heq
      rw [List.append_cancel_right heq]
    · exact absurd (by rw [String.toList_ofList]) (hnone qualifier hne)

end TypeRef

end JavaSource
