import JavaSource.CompilationUnit.Kind

namespace JavaSource

/-- What is wrong with the text of a type. -/
inductive Malformation where
  | unexpected (c : Char)
  | unclosed
  | textAfterClose
  | emptyArgument
  | packageTwice
  | boundKeyword
  | nestedWildcard
  deriving DecidableEq

def Malformation.text : Malformation → String
  | unexpected c => "unexpected '" ++ c.toString ++ "'"
  | unclosed => "unclosed '<'"
  | textAfterClose => "unexpected text after '>'"
  | emptyArgument => "empty type argument"
  | packageTwice => "qualified name given together with a package"
  | boundKeyword => "expected 'extends' or 'super' after '?'"
  | nestedWildcard => "nested wildcard"

/-- The things whose names must not be blank. -/
inductive Named where
  | type
  | field
  | method
  | unit (kind : UnitKind)
  deriving DecidableEq

def Named.text : Named → String
  | type => "type"
  | field => "field"
  | method => "method"
  | unit kind => kind.keyword

/-- The parts without which a declaration cannot be built. -/
inductive Part where
  | annotationType
  | parameterType
  | fieldType
  | fieldName
  | methodName
  deriving DecidableEq

/-- The declaration that the part belongs to. -/
def Part.owner : Part → String
  | annotationType => "annotation"
  | parameterType => "parameter"
  | fieldType => "field"
  | fieldName => "field"
  | methodName => "method"

/-- The part within its declaration. -/
def Part.text : Part → String
  | annotationType => "class type"
  | parameterType => "type"
  | fieldType => "type"
  | fieldName => "name"
  | methodName => "name"

/-- Why a type, a declaration or a configuration is refused. -/
inductive Error where
  /-- The offending text, trimmed, and what is wrong with it. -/
  | malformedType (raw : String) (reason : Malformation)
  | blankName (subject : Named)
  | missing (part : Part)
  | invalidConfiguration
  /-- The configuration file with this path cannot be read. -/
  | unreadable (path : String)
  deriving DecidableEq

namespace Error

/-- What an error says. -/
def message : Error → String
  | malformedType raw reason => "malformed type '" ++ raw ++ "': " ++ reason.text
  | blankName subject => subject.text ++ " name must not be blank"
  | missing part => part.owner ++ " is missing its " ++ part.text
  | invalidConfiguration => "invalid render configuration"
  | unreadable path => "failed to read '" ++ path ++ "'"

/-- Advice on how to mend the error, for the errors that have any. -/
def help : Error → Option String
  | malformedType .. => some "generic types look like `Map<String, List<com.acme.Widget>>`"
  | missing part => some ("set the " ++ part.text ++ " on the builder before calling build()")
  | blankName _ | invalidConfiguration | unreadable _ => none

end Error

end JavaSource
