import JavaSource.Collections.Keyed

namespace JavaSource

/-- A table of well-known types: the packages of simple names, which need not be spelled
    out in the text of a type. Each name has one package. -/
structure WellKnown where
  packages : List (String × String)

namespace WellKnown

def empty : WellKnown :=
  ⟨[]⟩

/-- The types of the class library that declarations use most. -/
def standard : WellKnown :=
  ⟨[("UUID", "java.util"), ("LocalDate", "java.time"), ("LocalDateTime", "java.time"),
    ("Optional", "java.util"), ("Stream", "java.util.stream"), ("LocalTime", "java.time"),
    ("Instant", "java.time"), ("Duration", "java.time"), ("OffsetDateTime", "java.time"),
    ("ZonedDateTime", "java.time"), ("BigDecimal", "java.math"), ("BigInteger", "java.math"),
    ("Collection", "java.util"), ("List", "java.util"), ("ArrayList", "java.util"),
    ("Set", "java.util"), ("HashSet", "java.util"), ("LinkedHashSet", "java.util"),
    ("Map", "java.util"), ("HashMap", "java.util"), ("LinkedHashMap", "java.util"),
    ("Collectors", "java.util.stream")]⟩

/-- The package of a simple name. -/
def package? (table : WellKnown) (name : String) : Option String :=
  Keyed.get? name table.packages

/-- The qualified name of a simple name. -/
def qualified? (table : WellKnown) (name : String) : Option String :=
  (table.package? name).map (· ++ "." ++ name)

/-- The table in which a name has the given package, whether or not it had one before. -/
def insert (table : WellKnown) (name package : String) : WellKnown :=
  ⟨Keyed.set name package table.packages⟩

/-- The table with further entries, where a later entry for a name wins. -/
def insertAll (table : WellKnown) (entries : List (String × String)) : WellKnown :=
  entries.foldl (fun table entry => table.insert entry.1 entry.2) table

def size (table : WellKnown) : Nat :=
  table.packages.length

/-- Whether two tables have the same entries, in whatever order. -/
def sameEntries (a b : WellKnown) : Bool :=
  a.size == b.size && a.packages.all fun entry => b.package? entry.1 == some entry.2

end WellKnown

end JavaSource
