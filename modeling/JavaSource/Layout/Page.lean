import JavaSource.Layout.Fragment
import JavaSource.Layout.Indent

namespace JavaSource

/-- Source lines under construction: the lines written so far and the level at which the
    next one is written. -/
structure Page where
  indent : Indent
  level : Nat
  lines : List String
  deriving DecidableEq

namespace Page

/-- A page without lines, at the outermost level. -/
def empty (indent : Indent) : Page :=
  ⟨indent, 0, []⟩

/-- Writes a line at the current level. -/
def line (page : Page) (text : String) : Page :=
  { page with lines := page.lines ++ [page.indent.margin page.level ++ text] }

/-- Writes an empty line, which is never indented. -/
def blank (page : Page) : Page :=
  { page with lines := page.lines ++ [""] }

/-- Goes one level deeper. -/
def deeper (page : Page) : Page :=
  { page with level := page.level + 1 }

/-- Goes back one level, and stays where it is at the outermost one. -/
def shallower (page : Page) : Page :=
  { page with level := page.level - 1 }

/-- Writes the line that closes a block, if it has one. -/
def lineIfSome (page : Page) : Option String → Page
  | some text => page.line text
  | none => page

mutual

/-- Writes a fragment, with the bodies in it one level deeper than their headers. -/
def emit (page : Page) : Fragment → Page
  | .line text => page.line text
  | .blank => page.blank
  | .block header body close =>
    (emitAll (page.line header).deeper body).shallower.lineIfSome close
  | .indent body => (emitAll page.deeper body).shallower

/-- Writes fragments one after the other. -/
def emitAll (page : Page) : List Fragment → Page
  | [] => page
  | f :: fs => emitAll (page.emit f) fs

end

end Page

/-- The lines of a sequence of fragments laid out from the outermost level. -/
def Fragment.linesIn (indent : Indent) (fragments : List Fragment) : List String :=
  ((Page.empty indent).emitAll fragments).lines

end JavaSource
