import JavaSource.Layout.Indent
import JavaSource.TypeRef.WellKnown

namespace JavaSource

/-- How units are rendered: the indentation, the extension of their files, and the table
    in which simple names of types are looked up. -/
structure RenderConfig where
  indent : Indent := .standard
  extension : String := "java"
  wellKnown : WellKnown := .standard

namespace RenderConfig

/-- The usual way. -/
def standard : RenderConfig := {}

/-- Whether two configurations say the same. The order of the table does not count. -/
def same (a b : RenderConfig) : Bool :=
  a.indent == b.indent && a.extension == b.extension && a.wellKnown.sameEntries b.wellKnown

end RenderConfig

end JavaSource
