import JavaSource.Text.Alphanumeric
import JavaSource.Text.Qualified
import JavaSource.TypeRef.Basic
import JavaSource.TypeRef.Split
import JavaSource.TypeRef.WellKnown

namespace JavaSource

/-- The characters of which a possibly qualified name is made. -/
def isNameChar (c : Char) : Bool :=
  Text.isAlphanumeric c || c == '_' || c == '$' || c == '.'

/-- A type variable is one upper-case letter with digits after it, if any, in ASCII. -/
def isTypeVariable : List Char → Bool
  | [] => false
  | c :: rest => c.isUpper && rest.all Char.isDigit

/-- The keys of the slots that a text fills, in order: seven letters, then a letter and
    the position. -/
def slotKey (position : Nat) : String :=
  ["T", "U", "V", "W", "X", "Y", "Z"].getD position ("T" ++ toString position)

/-- The side of a bounded wildcard and the text of the bound, for what follows the
    question mark. -/
def boundOf (text : List Char) : Option (Bound × List Char) :=
  if "extends ".toList.isPrefixOf text then some (.extends, text.drop 8)
  else if "super ".toList.isPrefixOf text then some (.super, text.drop 6)
  else none

private theorem length_lt_of_boundOf {text subject : List Char} {bound : Bound}
    (h : boundOf text = some (bound, subject)) : subject.length < text.length := by
  unfold boundOf at h
  split at h
  · next hword =>
    obtain ⟨_, rfl⟩ := by simpa using h
    have hlength := (List.isPrefixOf_iff_prefix.mp hword).length_le
    have height : "extends ".toList.length = 8 := by decide
    rw [List.length_drop]
    omega
  · split at h
    · next hword =>
      obtain ⟨_, rfl⟩ := by simpa using h
      have hlength := (List.isPrefixOf_iff_prefix.mp hword).length_le
      have hsix : "super ".toList.length = 6 := by decide
      rw [List.length_drop]
      omega
    · cases h

namespace TypeRef

/-- The package and the simple name of a declared type, from the package it is given
    with and its name in the text. The package is the given one, or the qualifier of the
    name if none is given, or what the table has for the name if there is no qualifier.
    -/
def resolve (table : WellKnown) (package raw base : List Char) :
    Except Error (String × String) := do
  if (Text.trim base).isEmpty then
    throw (.blankName .type)
  if let some c := base.find? (! isNameChar ·) then
    throw (.malformedType (String.ofList raw) (.unexpected c))
  let (package, name) ←
    if (Text.trim package).isEmpty then
      pure ((Text.splitLastDot base).getD ([], base))
    else if '.' ∈ base then
      throw (.malformedType (String.ofList raw) .packageTwice)
    else
      pure (Text.trim package, base)
  if name.isEmpty then
    throw (.blankName .type)
  let name := String.ofList name
  if package.isEmpty then
    return ((table.package? name).getD "", name)
  return (String.ofList package, name)

/-- Reads arguments from left to right and stops at the first one that is refused. -/
def readEach : (texts : List (List Char)) →
    ((text : List Char) → text ∈ texts → Except Error TypeArg) → Except Error (List TypeArg)
  | [], _ => .ok []
  | text :: texts, read => do
    let argument ← read text List.mem_cons_self
    let arguments ← readEach texts fun text h => read text (List.mem_cons_of_mem _ h)
    return argument :: arguments

theorem readEach_eq_mapM (texts : List (List Char)) (read : List Char → Except Error TypeArg) :
    readEach texts (fun text _ => read text) = texts.mapM read := by
  induction texts with
  | nil => rfl
  | cons text texts ih => simp [readEach, ih, List.mapM_cons]

/-- Reads a declared type with the given way to read its arguments, which are shorter
    than the text. -/
def readDeclared (table : WellKnown) (package raw : List Char)
    (read : (text : List Char) → text.length < raw.length → Except Error TypeArg) :
    Except Error TypeRef :=
  match hsplit : split (Text.trim raw) with
  | .error reason => .error (.malformedType (String.ofList (Text.trim raw)) reason)
  | .ok parts => do
    let (package, name) ← resolve table package (Text.trim raw) parts.base
    let arguments ← readEach parts.arguments fun text hmem =>
      read text (Nat.lt_of_lt_of_le (length_lt_of_mem_arguments hsplit hmem)
        (Text.length_trim_le raw))
    return .declared package name (arguments.mapIdx fun i argument => (slotKey i, argument))

/-- Reads one generic argument. A bound is read like an argument, so it is resolved
    through the same table as everything else, but it cannot be a wildcard itself. -/
def readArgument (table : WellKnown) (text : List Char) : Except Error TypeArg :=
  match htrim : Text.trim text with
  | '?' :: rest =>
    if (Text.trim rest).isEmpty then
      .ok (.placeholder "?")
    else
      match hbound : boundOf (Text.trim rest) with
      | none => .error (.malformedType (String.ofList ('?' :: rest)) .boundKeyword)
      | some (bound, subject) =>
        have : subject.length < text.length := by
          have hlt := length_lt_of_boundOf hbound
          have hle := Text.length_trim_le rest
          have hle' := Text.length_trim_le text
          rw [htrim, List.length_cons] at hle'
          omega
        match readArgument table subject with
        | .error error => .error error
        | .ok (.type t) => .ok (.wildcard bound t)
        | .ok _ =>
          if isTypeVariable (Text.trim subject) then
            .ok (.placeholder ("? " ++ bound.keyword ++ " " ++ String.ofList (Text.trim subject)))
          else
            .error (.malformedType (String.ofList ('?' :: rest)) .nestedWildcard)
  | plain =>
    if isTypeVariable plain then
      .ok (.placeholder (String.ofList plain))
    else if isNativeName (String.ofList plain) || ['[', ']'].isSuffixOf plain then
      .ok (.type (.native (String.ofList plain)))
    else
      (readDeclared table [] plain fun argument hlt =>
        have : argument.length < text.length :=
          Nat.lt_of_lt_of_le hlt (htrim ▸ Text.length_trim_le text)
        readArgument table argument).map .type
termination_by text.length

/-- Reads the text of a declared type, which may have generic arguments, and which may
    be qualified if the given package is blank. Simple names are looked up in the table.
    -/
def parse (table : WellKnown) (package raw : String) : Except Error TypeRef :=
  readDeclared table package.toList raw.toList fun text _ => readArgument table text

end TypeRef

/-- Reads the text of one generic argument. -/
def TypeArg.parse (table : WellKnown) (text : String) : Except Error TypeArg :=
  TypeRef.readArgument table text.toList

end JavaSource
