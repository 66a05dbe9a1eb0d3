namespace JavaSource

/-- The short names of the types that are built into the language or always in scope, so
    that they never need an import. -/
def nativeNames : List String :=
  ["byte", "Byte", "short", "Short", "int", "Integer", "long", "Long", "float", "Float",
    "double", "Double", "boolean", "Boolean", "char", "Character", "String", "Object", "void"]

/-- Whether a short name is that of a native type. -/
def isNativeName (name : String) : Bool :=
  nativeNames.contains name

/-- The side on which a wildcard is bounded. -/
inductive Bound where
  | extends
  | super
  deriving DecidableEq

def Bound.keyword : Bound → String
  | .extends => "extends"
  | .super => "super"

mutual

/-- A reference to a type: a native one, which is its own text, or a declared one with
    its package, which may be empty, its simple name and its generic arguments. Each
    argument fills a slot that has a key. -/
inductive TypeRef where
  | native (name : String)
  | declared (package simpleName : String) (slots : List (String × TypeArg))

/-- A generic argument. A placeholder is text that names no type: a type variable, the
    bare wildcard, or a wildcard bounded by a type variable. -/
inductive TypeArg where
  | type (t : TypeRef)
  | placeholder (text : String)
  | wildcard (bound : Bound) (t : TypeRef)

end

mutual

/-- Equality of references is decided by recursion on their arguments. -/
def TypeRef.decEq : (a b : TypeRef) → Decidable (a = b)
  | .native n, .native m => if h : n = m then isTrue (by rw [h]) else isFalse (by simp [h])
  | .declared package name slots, .declared package' name' slots' =>
    match TypeArg.decEqSlots slots slots' with
    | isFalse h => isFalse (by simp [h])
    | isTrue h =>
      if h' : package = package' ∧ name = name' then isTrue (by rw [h, h'.1, h'.2])
      else isFalse (by
        simp only [TypeRef.declared.injEq]
        exact fun heq => h' ⟨heq.1, heq.2.1⟩)
  | .native _, .declared .. => isFalse nofun
  | .declared .., .native _ => isFalse nofun

def TypeArg.decEq : (a b : TypeArg) → Decidable (a = b)
  | .type t, .type u =>
    match t.decEq u with
    | isTrue h => isTrue (by rw [h])
    | isFalse h => isFalse (by simp [h])
  | .placeholder s, .placeholder t =>
    if h : s = t then isTrue (by rw [h]) else isFalse (by simp [h])
  | .wildcard bound t, .wildcard bound' u =>
    match t.decEq u with
    | isFalse h => isFalse (by simp [h])
    | isTrue h =>
      if h' : bound = bound' then isTrue (by rw [h, h']) else isFalse (by simp [h'])
  | .type _, .placeholder _ => isFalse nofun
  | .type _, .wildcard .. => isFalse nofun
  | .placeholder _, .type _ => isFalse nofun
  | .placeholder _, .wildcard .. => isFalse nofun
  | .wildcard .., .type _ => isFalse nofun
  | .wildcard .., .placeholder _ => isFalse nofun

def TypeArg.decEqSlots : (a b : List (String × TypeArg)) → Decidable (a = b)
  | [], [] => isTrue rfl
  | (key, a) :: rest, (key', b) :: rest' =>
    match a.decEq b, TypeArg.decEqSlots rest rest' with
    | isFalse h, _ => isFalse (by simp [h])
    | _, isFalse h => isFalse (by simp [h])
    | isTrue h, isTrue h' =>
      if h'' : key = key' then isTrue (by rw [h, h', h'']) else isFalse (by simp [h''])
  | [], _ :: _ => isFalse nofun
  | _ :: _, [] => isFalse nofun

end

instance : DecidableEq TypeRef := TypeRef.decEq
instance : DecidableEq TypeArg := TypeArg.decEq

namespace TypeRef

def isNative : TypeRef → Bool
  | native _ => true
  | declared .. => false

/-- The name without package and arguments. -/
def simpleName : TypeRef → String
  | native name => name
  | declared _ name _ => name

/-- The package of a declared type, if it has one. -/
def package? : TypeRef → Option String
  | native _ => none
  | declared package _ _ => if package.isEmpty then none else some package

/-- The generic arguments with the keys of their slots. -/
def slots : TypeRef → List (String × TypeArg)
  | native _ => []
  | declared _ _ slots => slots

/-- The name as an import needs it, with the package and without arguments. -/
def qualifiedName (t : TypeRef) : String :=
  match t.package? with
  | some package => package ++ "." ++ t.simpleName
  | none => t.simpleName

theorem qualifiedName_of_ne_empty {package : String} (h : package ≠ "") (name : String)
    (slots : List (String × TypeArg)) :
    (declared package name slots).qualifiedName = package ++ "." ++ name := by
  have hempty : package.isEmpty = false := by simpa using h
  simp [qualifiedName, package?, hempty, simpleName]

/-- The literal that stands for the class itself in an annotation. -/
def classLiteral (t : TypeRef) : String :=
  t.simpleName ++ ".class"

end TypeRef

mutual

/-- The reference as declarations write it, with its arguments and without packages. -/
def TypeRef.fullName : TypeRef → String
  | .native name => name
  | .declared _ name [] => name
  | .declared _ name (slot :: slots) =>
    name ++ "<" ++ ", ".intercalate (TypeArg.displayEach (slot :: slots)) ++ ">"

/-- The argument as it stands between the angle brackets. -/
def TypeArg.display : TypeArg → String
  | .type t => t.fullName
  | .placeholder text => text
  | .wildcard bound t => "? " ++ bound.keyword ++ " " ++ t.fullName

def TypeArg.displayEach : List (String × TypeArg) → List String
  | [] => []
  | (_, argument) :: slots => argument.display :: TypeArg.displayEach slots

end

theorem TypeArg.displayEach_eq_map (slots : List (String × TypeArg)) :
    TypeArg.displayEach slots = slots.map (·.2.display) := by
  induction slots with
  | nil => rfl
  | cons slot slots ih => simp [TypeArg.displayEach, ih]

end JavaSource
