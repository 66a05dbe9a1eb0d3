import JavaSource.Toml.DateTime

namespace JavaSource.Toml

/-- The values that settings are made of. The entries of a table are strings: settings
    have no use for any other table, nor for arrays, fractions and truth values, so that
    documents with these are refused. -/
inductive Value where
  | string (s : String)
  | integer (n : Int)
  | dateTime (text : String)
  | table (entries : List (List String × String))
  deriving DecidableEq

/-- What a document is made of. Keys and the names of tables are paths. -/
inductive Statement where
  | header (path : List String)
  | assignment (path : List String) (value : Value)
  deriving DecidableEq

/-- The characters of a key that is not quoted. -/
def isKeyChar (c : Char) : Bool :=
  c.isAlphanum || c == '_' || c == '-'

def skipSpace (text : List Char) : List Char :=
  text.dropWhile isSpace

/-- The end of a comment, which is the end of its line or of the text. -/
def skipComment : List Char → Option (List Char)
  | [] => some []
  | '\n' :: rest => some ('\n' :: rest)
  | '\r' :: '\n' :: rest => some ('\r' :: '\n' :: rest)
  | c :: rest => if isControl c then none else skipComment rest

/-- The text after the end of the line, where only white space and a comment may stand
    before that end. -/
def endLine (text : List Char) : Option (List Char) := do
  let text ← match skipSpace text with
    | '#' :: rest => skipComment rest
    | text => some text
  match text with
  | [] => some []
  | '\n' :: rest => some rest
  | '\r' :: '\n' :: rest => some rest
  | _ => none

/-- One key of a path, quoted or not. -/
def simpleKey (text : List Char) : Option (String × List Char) :=
  match text with
  | '"' :: rest => (basicString rest).map fun key => (String.ofList key.1, key.2)
  | '\x27' :: rest => (literalString rest).map fun key => (String.ofList key.1, key.2)
  | _ =>
    let key := text.takeWhile isKeyChar
    if key.isEmpty then none else some (String.ofList key, text.dropWhile isKeyChar)

/-- A path of keys with dots between them. There are fewer keys than characters, which
    the number bounds. -/
def keyPathWithin : Nat → List Char → Option (List String × List Char)
  | 0, _ => none
  | limit + 1, text => do
    let (key, rest) ← simpleKey (skipSpace text)
    match skipSpace rest with
    | '.' :: rest =>
      let (keys, rest) ← keyPathWithin limit rest
      return (key :: keys, rest)
    | rest => return ([key], rest)

/-- A path of keys, and the text after it and after the white space there. -/
def keyPath (text : List Char) : Option (List String × List Char) :=
  keyPathWithin (text.length + 1) text

/-- Skips white space, comments and ends of lines, of which there are no more than
    characters. -/
def skipLinesWithin : Nat → List Char → Option (List Char)
  | 0, text => some text
  | limit + 1, text =>
    match skipSpace text with
    | '\n' :: rest => skipLinesWithin limit rest
    | '\r' :: '\n' :: rest => skipLinesWithin limit rest
    | '#' :: rest => skipComment rest >>= skipLinesWithin limit
    | rest => some rest

/-- The next text that is neither white space nor comment, on whatever line. -/
def skipLines (text : List Char) : Option (List Char) :=
  skipLinesWithin (text.length + 1) text

/-- The entries of an inline table up to its closing brace. There are fewer entries than
    characters, which the number bounds. -/
def entriesWithin : Nat → List Char → Option (List (List String × String) × List Char)
  | 0, _ => none
  | limit + 1, text => do
    match ← skipLines text with
    | '}' :: rest => return ([], rest)
    | text =>
      let (path, rest) ← keyPath text
      let (content, rest) ← quotedString (skipSpace (← expect '=' rest))
      let entry := (path, String.ofList content)
      match ← skipLines rest with
      | ',' :: rest =>
        let (entries, rest) ← entriesWithin limit rest
        return (entry :: entries, rest)
      | '}' :: rest => return ([entry], rest)
      | _ => none

/-- The characters of which numbers are made. -/
def isNumberChar (c : Char) : Bool :=
  c.isAlphanum || c == '_' || c == '-' || c == '+' || c == '.' || c == ':'

/-- A value, and the text after it. -/
def value (text : List Char) : Option (Value × List Char) :=
  match text with
  | '{' :: rest =>
    (entriesWithin (rest.length + 1) rest).map fun table => (.table table.1, table.2)
  | '"' :: _ => (quotedString text).map fun quoted => (.string (String.ofList quoted.1), quoted.2)
  | '\x27' :: _ => (quotedString text).map fun quoted => (.string (String.ofList quoted.1), quoted.2)
  | _ =>
    match integer (text.takeWhile isNumberChar) with
    | some n => some (.integer n, text.dropWhile isNumberChar)
    | none => (dateTime text).map fun moment => (.dateTime (String.ofList moment.1), moment.2)

/-- The statements of a text. There are fewer statements than characters, which the
    number bounds. -/
def statementsWithin : Nat → List Char → Option (List Statement)
  | 0, _ => none
  | limit + 1, text => do
    match ← skipLines text with
    | [] => return []
    | '[' :: rest =>
      let (path, rest) ← keyPath rest
      let statements ← statementsWithin limit (← endLine (← expect ']' rest))
      return .header path :: statements
    | text =>
      let (path, rest) ← keyPath text
      let (value, rest) ← value (skipSpace (← expect '=' rest))
      let statements ← statementsWithin limit (← endLine rest)
      return .assignment path value :: statements

/-- The statements of a document, or nothing if it is not one. A byte order mark may
    stand at its start. -/
def document (source : String) : Option (List Statement) :=
  let text := match source.toList with
    | '\ufeff' :: rest => rest
    | text => text
  statementsWithin (text.length + 1) text

end JavaSource.Toml
