import JavaSource.Collections.Ascending

namespace JavaSource

/-- The modifiers of a declaration, each named for its keyword and listed in the order
    in which they are written. -/
inductive Modifier where
  | publicKw
  | protectedKw
  | privateKw
  | abstractKw
  | defaultKw
  | staticKw
  | finalKw
  | transientKw
  | volatileKw
  | synchronizedKw
  | nativeKw
  deriving DecidableEq

namespace Modifier

def keyword : Modifier → String
  | publicKw => "public"
  | protectedKw => "protected"
  | privateKw => "private"
  | abstractKw => "abstract"
  | defaultKw => "default"
  | staticKw => "static"
  | finalKw => "final"
  | transientKw => "transient"
  | volatileKw => "volatile"
  | synchronizedKw => "synchronized"
  | nativeKw => "native"

/-- All modifiers in the order in which they are written. -/
def all : List Modifier :=
  [publicKw, protectedKw, privateKw, abstractKw, defaultKw, staticKw, finalKw, transientKw,
    volatileKw, synchronizedKw, nativeKw]

/-- The modifier with a keyword. -/
def ofKeyword? (word : String) : Option Modifier :=
  all.find? fun modifier => modifier.keyword == word

/-- The place of a modifier in the order in which they are written. -/
def rank : Modifier → Nat
  | publicKw => 0
  | protectedKw => 1
  | privateKw => 2
  | abstractKw => 3
  | defaultKw => 4
  | staticKw => 5
  | finalKw => 6
  | transientKw => 7
  | volatileKw => 8
  | synchronizedKw => 9
  | nativeKw => 10

/-- Adds a modifier to a set of them, which is a list in the order of writing. -/
def addTo (modifiers : List Modifier) (modifier : Modifier) : List Modifier :=
  Ascending.insert (fun a b => compare a.rank b.rank) modifier modifiers

/-- The modifiers in front of a declaration, each with the space after it. -/
def texts (modifiers : List Modifier) : String :=
  String.join (modifiers.map (·.keyword ++ " "))

end Modifier

end JavaSource
