import JavaSource.Annotation.Value
import Mathlib.Logic.Function.Basic

namespace JavaSource

namespace Text

/-- The character that a backslash and the character behind it stand for in a literal. -/
def escaped? : Char → Option Char
  | '"' => some '"'
  | '\\' => some '\\'
  | 'n' => some '\n'
  | 't' => some '\t'
  | 'r' => some '\r'
  | _ => none

/-- What the characters between the quotes of a literal stand for. -/
def unescape : List Char → Option (List Char)
  | [] => some []
  | ['\\'] => none
  | '\\' :: c :: rest => do return (← escaped? c) :: (← unescape rest)
  | c :: rest => (unescape rest).map (c :: ·)

/-- The characters of an open literal up to the quote that closes it, and the text behind
    that quote. A backslash takes the next character with it. -/
def closeQuote : List Char → Option (List Char × List Char)
  | [] => none
  | '"' :: rest => some ([], rest)
  | ['\\'] => none
  | '\\' :: c :: rest => (closeQuote rest).map fun found => ('\\' :: c :: found.1, found.2)
  | c :: rest => (closeQuote rest).map fun found => (c :: found.1, found.2)

/-- The characters between the quotes of the literal that a text begins with, and the text
    behind it. -/
def scanQuoted : List Char → Option (List Char × List Char)
  | '"' :: rest => closeQuote rest
  | _ => none

/-- A character is written behind a backslash, which with the character there stands for it,
    or as itself, and then it ends neither a literal nor a line and begins no escape. -/
theorem escape_cases (c : Char) :
    (∃ d, escape c = ['\\', d] ∧ escaped? d = some c ∧ d ∉ ['\n', '\r', '\t']) ∨
      escape c = [c] ∧ c ≠ '"' ∧ c ≠ '\\' ∧ c ∉ ['\n', '\r', '\t'] := by
  unfold escape
  split
  case h_6 hquote hslash hfeed htab hreturn =>
    exact .inr ⟨rfl, hquote, hslash, by simpa using ⟨hfeed, hreturn, htab⟩⟩
  all_goals exact .inl ⟨_, rfl, rfl, by decide⟩

variable {c : Char}

/-- The scan goes on behind a character that neither closes nor escapes. -/
theorem closeQuote_cons (hquote : c ≠ '"') (hslash : c ≠ '\\') (rest : List Char) :
    closeQuote (c :: rest) = (closeQuote rest).map fun found => (c :: found.1, found.2) := by
  rw [closeQuote]
  · exact hquote
  · exact fun h _ => hslash h
  · exact fun _ _ h _ => hslash h

/-- A character that does not escape stands for itself. -/
theorem unescape_cons (hslash : c ≠ '\\') (rest : List Char) :
    unescape (c :: rest) = (unescape rest).map (c :: ·) := by
  rw [unescape]
  · exact fun h _ => hslash h
  · exact fun _ _ h _ => hslash h

/-- The quote that closes a literal is found behind what is written for its text, whatever
    comes after it. -/
theorem closeQuote_flatMap_escape (text rest : List Char) :
    closeQuote (text.flatMap escape ++ '"' :: rest) = some (text.flatMap escape, rest) := by
  induction text with
  | nil => rfl
  | cons c text ih =>
    rw [List.flatMap_cons, List.append_assoc]
    obtain ⟨d, hescape, _⟩ | ⟨hescape, hquote, hslash, _⟩ := escape_cases c
    · rw [hescape, List.cons_append, List.singleton_append, closeQuote, ih]
      rfl
    · rw [hescape, List.singleton_append, closeQuote_cons hquote hslash, ih]
      rfl

/-- The escaped characters of a text stand for that text. -/
theorem unescape_flatMap_escape (text : List Char) : unescape (text.flatMap escape) = some text := by
  induction text with
  | nil => rfl
  | cons c text ih =>
    rw [List.flatMap_cons]
    obtain ⟨d, hescape, hd, _⟩ | ⟨hescape, _, hslash, _⟩ := escape_cases c
    · rw [hescape, List.cons_append, List.singleton_append, unescape, hd, ih]
      rfl
    · rw [hescape, List.singleton_append, unescape_cons hslash, ih]
      rfl

/-- Marks of white space that would break a line or hide in it are not written as they are. -/
theorem notMem_escape {mark : Char} (hmark : mark ∈ ['\n', '\r', '\t']) (c : Char) : mark ∉ escape c := by
  obtain ⟨d, hescape, _, hd⟩ | ⟨hescape, _, _, hc⟩ := escape_cases c
  · have hslash : mark ≠ '\\' := ne_of_mem_of_not_mem hmark (by decide)
    simpa [hescape, hslash] using ne_of_mem_of_not_mem hmark hd
  · simpa [hescape] using ne_of_mem_of_not_mem hmark hc

/-- Line feeds, carriage returns and tabs do not stand in a literal as such. -/
theorem notMem_quote {mark : Char} (hmark : mark ∈ ['\n', '\r', '\t']) (text : List Char) : mark ∉ quote text := by
  have hescaped : mark ∉ text.flatMap escape := by
    rw [List.mem_flatMap]
    rintro ⟨c, _, hc⟩
    exact notMem_escape hmark c hc
  have hquote : mark ≠ '"' := ne_of_mem_of_not_mem hmark (by decide)
  simp [quote, hquote, hescaped]

end Text

namespace AttributeValue

/-- A string is given back by its literal, and no string breaks out of it: read from its
    quote on, the literal ends where it was written to end, whatever follows. -/
theorem literal_selfDelimiting :
    (∀ s rest : String, ∃ inside, (string s).literal.toList = '"' :: inside ++ ['"'] ∧
      Text.scanQuoted ((string s).literal ++ rest).toList = some (inside, rest.toList) ∧
      Text.unescape inside = some s.toList ∧ '\n' ∉ (string s).literal.toList ∧
      '\r' ∉ (string s).literal.toList ∧ '\t' ∉ (string s).literal.toList) ∧
    Function.Injective fun s => (string s).literal := by
  have hliteral (s : String) : (string s).literal.toList = '"' :: s.toList.flatMap Text.escape ++ ['"'] := by
    rw [literal, quoted, String.toList_ofList, Text.quote]
  have hmarks (s : String) {mark : Char} (hmark : mark ∈ ['\n', '\r', '\t']) :
      mark ∉ (string s).literal.toList := by
    rw [hliteral]
    exact Text.notMem_quote hmark s.toList
  refine ⟨?_, ?_⟩
  · intro s rest
    refine ⟨s.toList.flatMap Text.escape, hliteral s, ?_, Text.unescape_flatMap_escape s.toList,
      hmarks s (by decide), hmarks s (by decide), hmarks s (by decide)⟩
    rw [String.toList_append, hliteral, List.cons_append, List.cons_append, List.append_assoc, Text.scanQuoted]
    exact Text.closeQuote_flatMap_escape s.toList rest.toList
  · intro s t h
    have hinside : s.toList.flatMap Text.escape = t.toList.flatMap Text.escape := by
      have hsame := congrArg String.toList h
      simp only [hliteral] at hsame
      simpa using hsame
    have hread := congrArg Text.unescape hinside
    rw [Text.unescape_flatMap_escape, Text.unescape_flatMap_escape] at hread
    exact String.toList_inj.mp (Option.some.inj hread)

end AttributeValue

end JavaSource
