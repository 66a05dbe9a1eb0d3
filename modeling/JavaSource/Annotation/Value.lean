import JavaSource.Number.Double
import JavaSource.Text.Quoted
import JavaSource.TypeRef.Basic

namespace JavaSource

/-- The value of an annotation's attribute. -/
inductive AttributeValue where
  | type (t : TypeRef)
  | integer (n : Int)
  | double (d : Double)
  | boolean (b : Bool)
  | string (s : String)

namespace AttributeValue

/-- The value as source text. -/
def literal : AttributeValue → String
  | type t => t.classLiteral
  | integer n => toString n
  | double d => d.literal
  | boolean b => toString b
  | string s => quoted s

/-- Equality of values, where doubles are compared as numbers. -/
def same : AttributeValue → AttributeValue → Bool
  | type t, type u => t == u
  | integer m, integer n => m == n
  | double d, double e => d == e
  | boolean a, boolean b => a == b
  | string s, string t => s == t
  | _, _ => false

instance : BEq AttributeValue := ⟨same⟩

end AttributeValue

end JavaSource
