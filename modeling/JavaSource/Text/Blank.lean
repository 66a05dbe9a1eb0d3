namespace JavaSource.Text

/-- The white space characters: the twenty-five code points that the Unicode property of
    that name lists. -/
def isSpace (c : Char) : Bool :=
  let code := c.toNat
  (9 ≤ code && code ≤ 13) || code == 0x20 || code == 0x85 || code == 0xA0 || code == 0x1680 ||
    (0x2000 ≤ code && code ≤ 0x200A) || code == 0x2028 || code == 0x2029 || code == 0x202F ||
    code == 0x205F || code == 0x3000

/-- A text without its leading white space. -/
def trimStart (text : List Char) : List Char :=
  text.dropWhile isSpace

/-- A text without its trailing white space. -/
def trimEnd (text : List Char) : List Char :=
  (text.reverse.dropWhile isSpace).reverse

/-- A text without the white space on either side. -/
def trim (text : List Char) : List Char :=
  trimEnd (trimStart text)

theorem length_trimStart_le (text : List Char) : (trimStart text).length ≤ text.length :=
  (List.dropWhile_sublist _).length_le

theorem length_trimEnd_le (text : List Char) : (trimEnd text).length ≤ text.length := by
  have h := (List.dropWhile_sublist isSpace (l := text.reverse)).length_le
  simpa [trimEnd] using h

/-- Trimming never lengthens a text, which is what lets a reader recurse on trimmed
    pieces. -/
theorem length_trim_le (text : List Char) : (trim text).length ≤ text.length :=
  Nat.le_trans (length_trimEnd_le _) (length_trimStart_le _)

end JavaSource.Text

namespace JavaSource

/-- A string without the white space on either side. -/
def trimmed (s : String) : String :=
  String.ofList (Text.trim s.toList)

/-- Whether a string is empty or consists of white space only. -/
def isBlank (s : String) : Bool :=
  (Text.trim s.toList).isEmpty

end JavaSource
