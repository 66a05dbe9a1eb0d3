import JavaSource.Output.FileSystem

namespace JavaSource

/-- What to do where a file is to be written and something is there already. -/
inductive Overwrite where
  /-- Write in any case, as for generated code. -/
  | always
  /-- Keep what is there, as for stubs that are edited afterwards. -/
  | ifMissing
  deriving DecidableEq

/-- How a file is written. -/
structure WriteRules where
  overwrite : Overwrite := .always
  /-- A first line above the content. -/
  header : Option String := none
  deriving DecidableEq

/-- A file that waits to be written, with its path relative to an output root. -/
structure SourceEntry where
  path : Path
  content : String
  rules : WriteRules := {}
  deriving DecidableEq

/-- What became of a file that was to be written. -/
inductive WriteResult where
  | written
  | skipped
  deriving DecidableEq

namespace SourceEntry

/-- The content with the header above it. -/
def fullContent (entry : SourceEntry) : String :=
  match entry.rules.header with
  | none => entry.content
  | some header => header ++ "\n" ++ entry.content

/-- The place of the entry below an output root. -/
def destination (entry : SourceEntry) (base : Path) : Path :=
  base.join entry.path

/-- Writes the entry at its own path, as its rules say. -/
def write (entry : SourceEntry) : FileM WriteResult := do
  if entry.rules.overwrite = .ifMissing ∧ (← get).contains entry.path then
    return .skipped
  FileSystem.write entry.path entry.fullContent
  return .written

/-- Writes the entry below an output root. -/
def writeBelow (entry : SourceEntry) (base : Path) : FileM WriteResult :=
  { entry with path := entry.destination base }.write

end SourceEntry

/-- What a run has done: how many files were written and how many were kept, and the
    paths of either, in the order of writing. -/
structure WriteReport where
  writtenCount : Nat := 0
  skippedCount : Nat := 0
  written : List Path := []
  skipped : List Path := []

namespace WriteReport

/-- How many files the run has dealt with. -/
def total (report : WriteReport) : Nat :=
  report.writtenCount + report.skippedCount

/-- Counts a file and notes its path. -/
def add (report : WriteReport) (path : Path) : WriteResult → WriteReport
  | .written =>
    { report with writtenCount := report.writtenCount + 1, written := report.written ++ [path] }
  | .skipped =>
    { report with skippedCount := report.skippedCount + 1, skipped := report.skipped ++ [path] }

end WriteReport

/-- Files that are written together, in the order of their registration. -/
structure SourceTree where
  files : List SourceEntry

namespace SourceTree

def empty : SourceTree :=
  ⟨[]⟩

/-- Registers a file behind the others. It replaces the one whose path has the same
    components. -/
def register (tree : SourceTree) (entry : SourceEntry) : SourceTree :=
  ⟨tree.files.filter (·.path.components ≠ entry.path.components) ++ [entry]⟩

/-- The files in the order of their paths. -/
def entries (tree : SourceTree) : List SourceEntry :=
  tree.files.mergeSort fun a b => (a.path.cmp b.path).isLE

def size (tree : SourceTree) : Nat :=
  tree.files.length

/-- Writes entries one after the other, and stops at the first failure. -/
def writeEntries (base : Path) : List SourceEntry → WriteReport → FileM WriteReport
  | [], report => pure report
  | entry :: rest, report => do
    let result ← entry.writeBelow base
    writeEntries base rest (report.add entry.path result)

/-- Writes all files below an output root, in the order of their paths. -/
def writeAll (tree : SourceTree) (base : Path) : FileM WriteReport :=
  writeEntries base tree.entries {}

end SourceTree

end JavaSource
