namespace JavaSource.Toml

/-- The characters that no string or comment may hold: the control characters other than
    the tab. -/
def isControl (c : Char) : Bool :=
  (c.toNat < 0x20 && c != '\t') || c.toNat == 0x7F

/-- White space within a line. -/
def isSpace (c : Char) : Bool :=
  c == ' ' || c == '\t'

/-- The character that a letter after a backslash stands for. -/
def namedEscape : Char → Option Char
  | 'b' => some '\x08'
  | 't' => some '\t'
  | 'n' => some '\n'
  | 'f' => some '\x0c'
  | 'r' => some '\r'
  | 'e' => some '\x1b'
  | '"' => some '"'
  | '\\' => some '\\'
  | _ => none

/-- How many hexadecimal digits follow a letter after a backslash. -/
def escapeWidth : Char → Option Nat
  | 'x' => some 2
  | 'u' => some 4
  | 'U' => some 8
  | _ => none

/-- The value of a digit in bases up to sixteen. -/
def digitValue (c : Char) : Option Nat :=
  if '0' ≤ c ∧ c ≤ '9' then some (c.toNat - '0'.toNat)
  else if 'a' ≤ c ∧ c ≤ 'f' then some (c.toNat - 'a'.toNat + 10)
  else if 'A' ≤ c ∧ c ≤ 'F' then some (c.toNat - 'A'.toNat + 10)
  else none

/-- The character whose code point the first digits of a text give. It has to be one
    that a character can have. -/
def codePoint (width : Nat) (text : List Char) : Option Char := do
  let digits ← (text.take width).mapM digitValue
  let code := digits.foldl (fun code digit => 16 * code + digit) 0
  if digits.length = width ∧ code.isValidChar then some (Char.ofNat code) else none

/-- A string up to the quote that closes it, and the text after that quote. -/
def basicString (text : List Char) : Option (List Char × List Char) :=
  match text with
  | [] => none
  | '"' :: rest => some ([], rest)
  | '\\' :: letter :: rest =>
    match escapeWidth letter with
    | some width => do
      let c ← codePoint width rest
      let (content, after) ← basicString (rest.drop width)
      return (c :: content, after)
    | none => do
      let c ← namedEscape letter
      let (content, after) ← basicString rest
      return (c :: content, after)
  | c :: rest => do
    if isControl c then none
    let (content, after) ← basicString rest
    return (c :: content, after)
termination_by text.length
decreasing_by all_goals simp only [List.length_cons, List.length_drop]; omega

/-- Whether only white space stands before the end of the line. -/
def lineEndsIn (text : List Char) : Bool :=
  match text.dropWhile isSpace with
  | '\n' :: _ => true
  | '\r' :: '\n' :: _ => true
  | _ => false

/-- What a closing run of quotes leaves of the text. Up to two quotes before the three
    that close a string belong to its content. -/
def extraQuotes (quote : Char) : List Char → List Char × List Char
  | first :: second :: after =>
    if first = quote ∧ second = quote then ([quote, quote], after)
    else if first = quote then ([quote], second :: after)
    else ([], first :: second :: after)
  | [only] => if only = quote then ([quote], []) else ([], [only])
  | [] => ([], [])

/-- A string of several lines, up to the three quotes that close it. A backslash at the
    end of a line takes away the white space up to the next character, ends of lines
    included, which is what the flag stands for. -/
def basicLines (skipping : Bool) (text : List Char) : Option (List Char × List Char) :=
  match text with
  | [] => none
  | '"' :: '"' :: '"' :: rest => some (extraQuotes '"' rest)
  | '\n' :: rest => do
    let (content, after) ← basicLines skipping rest
    return (if skipping then content else '\n' :: content, after)
  | '\r' :: '\n' :: rest => do
    let (content, after) ← basicLines skipping rest
    return (if skipping then content else '\r' :: '\n' :: content, after)
  | '\\' :: letter :: rest =>
    if lineEndsIn (letter :: rest) then
      basicLines true (letter :: rest)
    else
      match escapeWidth letter with
      | some width => do
        let c ← codePoint width rest
        let (content, after) ← basicLines false (rest.drop width)
        return (c :: content, after)
      | none => do
        let c ← namedEscape letter
        let (content, after) ← basicLines false rest
        return (c :: content, after)
  | c :: rest =>
    if skipping && isSpace c then
      basicLines true rest
    else do
      if isControl c then none
      let (content, after) ← basicLines false rest
      return (c :: content, after)
termination_by text.length
decreasing_by all_goals simp only [List.length_cons, List.length_drop]; omega

/-- A string without escapes, up to the apostrophe that closes it. -/
def literalString : List Char → Option (List Char × List Char)
  | [] => none
  | '\x27' :: rest => some ([], rest)
  | c :: rest => do
    if isControl c then none
    let (content, after) ← literalString rest
    return (c :: content, after)

/-- A string of several lines without escapes, up to the three apostrophes that close it. -/
def literalLines : List Char → Option (List Char × List Char)
  | [] => none
  | '\x27' :: '\x27' :: '\x27' :: rest => some (extraQuotes '\x27' rest)
  | '\n' :: rest => do
    let (content, after) ← literalLines rest
    return ('\n' :: content, after)
  | '\r' :: '\n' :: rest => do
    let (content, after) ← literalLines rest
    return ('\r' :: '\n' :: content, after)
  | c :: rest => do
    if isControl c then none
    let (content, after) ← literalLines rest
    return (c :: content, after)

/-- A text without the end of line that may stand at its start. -/
def dropLineEnd : List Char → List Char
  | '\n' :: rest => rest
  | '\r' :: '\n' :: rest => rest
  | text => text

/-- A string of any of the four forms, and the text after it. -/
def quotedString : List Char → Option (List Char × List Char)
  | '"' :: '"' :: '"' :: rest => basicLines false (dropLineEnd rest)
  | '"' :: rest => basicString rest
  | '\x27' :: '\x27' :: '\x27' :: rest => literalLines (dropLineEnd rest)
  | '\x27' :: rest => literalString rest
  | _ => none

end JavaSource.Toml
