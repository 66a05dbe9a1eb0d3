namespace JavaSource

/-- The kinds of compilation unit. -/
inductive UnitKind where
  | classUnit
  | interfaceUnit
  | recordUnit
  deriving DecidableEq

/-- The keyword that declares a unit of the kind. -/
def UnitKind.keyword : UnitKind → String
  | classUnit => "class"
  | interfaceUnit => "interface"
  | recordUnit => "record"

end JavaSource
