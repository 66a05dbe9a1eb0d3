import JavaSource.Text.Replace

namespace JavaSource

/-- What stands at the end of a line that opens a body. -/
def openBrace : String := String.singleton '{'

/-- The line that closes a body. -/
def closeBrace : String := String.singleton '}'

@[simp] theorem toList_openBrace : openBrace.toList = ['{'] := rfl

/-- A piece of source text. It says how lines nest but not what a level of indentation
    looks like, so that one fragment can be laid out in any style. -/
inductive Fragment where
  | line (text : String)
  | blank
  /-- A header, its body one level deeper, and the line that closes it if there is one. -/
  | block (header : String) (body : List Fragment) (close : Option String)
  | indent (body : List Fragment)

namespace Fragment

mutual

/-- Equality of fragments is decided by recursion on their nesting. -/
def decEq : (a b : Fragment) → Decidable (a = b)
  | .line s, .line t => if h : s = t then isTrue (by rw [h]) else isFalse (by simp [h])
  | .blank, .blank => isTrue rfl
  | .block header body close, .block header' body' close' =>
    match decEqList body body' with
    | isFalse h => isFalse (by simp [h])
    | isTrue h =>
      if h' : header = header' ∧ close = close' then isTrue (by rw [h, h'.1, h'.2])
      else isFalse (by simp only [block.injEq]; exact fun heq => h' ⟨heq.1, heq.2.2⟩)
  | .indent body, .indent body' =>
    match decEqList body body' with
    | isFalse h => isFalse (by simp [h])
    | isTrue h => isTrue (by rw [h])
  | .line _, .blank => isFalse nofun
  | .line _, .block .. => isFalse nofun
  | .line _, .indent _ => isFalse nofun
  | .blank, .line _ => isFalse nofun
  | .blank, .block .. => isFalse nofun
  | .blank, .indent _ => isFalse nofun
  | .block .., .line _ => isFalse nofun
  | .block .., .blank => isFalse nofun
  | .block .., .indent _ => isFalse nofun
  | .indent _, .line _ => isFalse nofun
  | .indent _, .blank => isFalse nofun
  | .indent _, .block .. => isFalse nofun

/-- Equality of sequences of fragments. -/
def decEqList : (a b : List Fragment) → Decidable (a = b)
  | [], [] => isTrue rfl
  | f :: fs, g :: gs =>
    match f.decEq g, decEqList fs gs with
    | isTrue h, isTrue h' => isTrue (by rw [h, h'])
    | isFalse h, _ => isFalse (by simp [h])
    | _, isFalse h => isFalse (by simp [h])
  | [], _ :: _ => isFalse nofun
  | _ :: _, [] => isFalse nofun

end

instance : DecidableEq Fragment := decEq

mutual

/-- The fragment with every occurrence of a pattern replaced, wherever it has text. -/
def replace (pattern replacement : String) : Fragment → Fragment
  | .line text => .line (replaceAll pattern replacement text)
  | .blank => .blank
  | .block header body close =>
    .block (replaceAll pattern replacement header) (replaceEach pattern replacement body)
      (close.map (replaceAll pattern replacement))
  | .indent body => .indent (replaceEach pattern replacement body)

/-- Replacement in each fragment of a sequence. -/
def replaceEach (pattern replacement : String) : List Fragment → List Fragment
  | [] => []
  | f :: fs => f.replace pattern replacement :: replaceEach pattern replacement fs

end

theorem replaceEach_eq_map (pattern replacement : String) (fragments : List Fragment) :
    replaceEach pattern replacement fragments = fragments.map (replace pattern replacement) := by
  induction fragments with
  | nil => rfl
  | cons f fs ih => simp [replaceEach, ih]

end Fragment

end JavaSource
