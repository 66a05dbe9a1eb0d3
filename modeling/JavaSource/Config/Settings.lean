import JavaSource.Collections.Keyed
import JavaSource.Config.Basic
import JavaSource.Error
import JavaSource.Output.FileSystem
import JavaSource.Toml.Document

namespace JavaSource

/-- How the table of well-known types has been opened in a document. A table that is
    written inline is complete, and one under a header cannot be opened again. -/
inductive TableForm where
  | absent
  | dotted
  | complete
  deriving DecidableEq

/-- What a document of settings says, as far as it has been read. -/
structure Settings where
  indent : Option Indent := none
  extension : Option String := none
  wellKnown : List (String × String) := []
  tableForm : TableForm := .absent
  /-- Whether the keys that follow belong to the table of well-known types. -/
  inTable : Bool := false

namespace Settings

/-- The key of the only entry that a date has when it is read as a table. -/
def dateKey : String := "$__toml_private_datetime"

/-- An indentation: a number of spaces that fits a byte, or the word for a tab. -/
def indentOf : Toml.Value → Option Indent
  | .integer n => if 0 ≤ n ∧ n < 256 then some (.spaces (UInt8.ofNat n.toNat)) else none
  | .string s => if s = "tab" then some .tab else none
  | .dateTime _ | .table _ => none

/-- Adds an entry to the table. A name that has an entry already cannot have another. -/
def addEntry (settings : Settings) (name package : String) : Option Settings :=
  match Keyed.get? name settings.wellKnown with
  | some _ => none
  | none => some { settings with wellKnown := settings.wellKnown ++ [(name, package)] }

/-- Adds the entries of an inline table, whose keys are simple. -/
def addEntries (settings : Settings) : List (List String × String) → Option Settings
  | [] => some settings
  | ([name], package) :: rest => do addEntries (← settings.addEntry name package) rest
  | _ => none

/-- The settings after an assignment outside the table. -/
def assign (settings : Settings) : List String → Toml.Value → Option Settings
  | ["indent"], value => do
    if settings.indent.isSome then none
    return { settings with indent := ← indentOf value }
  | ["extension"], .string s =>
    if settings.extension.isSome then none else some { settings with extension := s }
  | ["well_known"], value => do
    if settings.tableForm ≠ .absent then none
    let settings := { settings with tableForm := .complete }
    match value with
    | .table entries => settings.addEntries entries
    | .dateTime text => settings.addEntry dateKey text
    | .string _ | .integer _ => none
  | ["well_known", name], .string package =>
    if settings.tableForm = .complete then none
    else { settings with tableForm := .dotted }.addEntry name package
  | _, _ => none

/-- The settings after a statement. The only header is that of the table, and after it
    there is nothing but entries of the table. -/
def read (settings : Settings) : Toml.Statement → Option Settings
  | .header path =>
    if path = ["well_known"] ∧ settings.tableForm = .absent then
      some { settings with tableForm := .complete, inTable := true }
    else
      none
  | .assignment path value =>
    if settings.inTable then
      match path, value with
      | [name], .string package => settings.addEntry name package
      | _, _ => none
    else
      settings.assign path value

/-- The settings of a document, or nothing if it is malformed or says anything else. -/
def ofDocument? (source : String) : Option Settings := do
  (← Toml.document source).foldlM read {}

/-- The usual configuration with the settings in place of what they name. Dots in front
    of the extension do not count, and the table keeps its standard entries. -/
def config (settings : Settings) : RenderConfig where
  indent := settings.indent.getD .standard
  extension :=
    match settings.extension with
    | none => "java"
    | some extension => String.ofList (extension.toList.dropWhile (· = '.'))
  wellKnown := WellKnown.standard.insertAll settings.wellKnown

end Settings

namespace RenderConfig

/-- Reads the text of a configuration. -/
def parse (source : String) : Except Error RenderConfig :=
  match Settings.ofDocument? source with
  | none => .error .invalidConfiguration
  | some settings => .ok settings.config

/-- Reads a configuration file. -/
def load (files : FileSystem) (path : Path) : Except Error RenderConfig :=
  match files.read? path with
  | none => .error (.unreadable path.text)
  | some source => parse source

end RenderConfig

end JavaSource
