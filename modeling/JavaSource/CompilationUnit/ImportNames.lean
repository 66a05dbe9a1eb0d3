import JavaSource.Collections.Ascending
import JavaSource.Text.Blank

namespace JavaSource

/-- A set of qualified names to import, in ascending order. The names are trimmed and
    none is blank. -/
structure ImportNames where
  names : List String
  deriving DecidableEq

namespace ImportNames

def empty : ImportNames :=
  ⟨[]⟩

/-- Adds a name, trimmed. A blank name is ignored. -/
def add (imports : ImportNames) (name : String) : ImportNames :=
  if isBlank name then imports else ⟨Ascending.insert compare (trimmed name) imports.names⟩

/-- Adds names one after the other. -/
def addAll (imports : ImportNames) (names : List String) : ImportNames :=
  names.foldl add imports

/-- The set of some names. -/
def ofList (names : List String) : ImportNames :=
  empty.addAll names

/-- Keeps only the names with a property. -/
def filter (imports : ImportNames) (keep : String → Bool) : ImportNames :=
  ⟨imports.names.filter keep⟩

/-- Whether a name is in the set. The name is taken as it is, untrimmed. -/
def contains (imports : ImportNames) (name : String) : Bool :=
  imports.names.contains name

def size (imports : ImportNames) : Nat :=
  imports.names.length

def isEmpty (imports : ImportNames) : Bool :=
  imports.names.isEmpty

end ImportNames

end JavaSource
