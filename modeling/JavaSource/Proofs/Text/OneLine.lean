import JavaSource.Layout.Indent
import JavaSource.Member.Body
import JavaSource.Proofs.Text.Pieces
import JavaSource.Proofs.Text.Quoted
import JavaSource.Proofs.Text.Trim
import JavaSource.Text.Replace
import JavaSource.Text.Uppercase

namespace JavaSource

/-- A text without line feeds. -/
def OneLine (s : String) : Prop :=
  '\n' ∉ s.toList

instance : DecidablePred OneLine := fun s =>
  inferInstanceAs (Decidable ('\n' ∉ s.toList))

@[simp] theorem oneLine_append {s t : String} : OneLine (s ++ t) ↔ OneLine s ∧ OneLine t := by
  simp [OneLine]

/-- A text made of characters is one line if none of them is a line feed. -/
@[simp] theorem oneLine_ofList {text : List Char} : OneLine (String.ofList text) ↔ '\n' ∉ text := by
  rw [OneLine, String.toList_ofList]

/-- Texts of one line each are one line together. -/
theorem OneLine.join {texts : List String} (h : ∀ s ∈ texts, OneLine s) : OneLine (String.join texts) := by
  rw [OneLine, String.toList_join, List.mem_flatMap]
  rintro ⟨s, hs, hmem⟩
  exact h s hs hmem

/-- Whatever stands in joined texts stands in one of them or in the separator. -/
theorem Text.mem_of_mem_intercalate {separator : List Char} {c : Char} : ∀ {texts : List (List Char)},
    c ∈ separator.intercalate texts → c ∈ separator ∨ ∃ text ∈ texts, c ∈ text
  | [], h => by simp at h
  | [text], h => .inr ⟨text, List.mem_singleton.mpr rfl, by simpa using h⟩
  | text :: next :: texts, h => by
    rw [List.intercalate_cons_cons, List.mem_append, List.mem_append] at h
    obtain (htext | hseparator) | hrest := h
    · exact .inr ⟨text, List.mem_cons_self, htext⟩
    · exact .inl hseparator
    · refine (mem_of_mem_intercalate hrest).imp_right ?_
      rintro ⟨other, hother, hc⟩
      exact ⟨other, List.mem_cons_of_mem _ hother, hc⟩

/-- Texts of one line each stay one line with a separator that has no line feeds. -/
theorem OneLine.intercalate {separator : String} {texts : List String} (hseparator : OneLine separator)
    (h : ∀ s ∈ texts, OneLine s) : OneLine (separator.intercalate texts) := by
  rw [OneLine, String.toList_intercalate]
  intro hmem
  obtain hmem | ⟨text, htext, hmem⟩ := Text.mem_of_mem_intercalate hmem
  · exact hseparator hmem
  · obtain ⟨s, hs, rfl⟩ := List.mem_map.mp htext
    exact h s hs hmem

namespace Text

/-- Trimming the end of a text brings in no character. -/
theorem trimEnd_subset (text : List Char) : trimEnd text ⊆ text := by
  intro c hc
  rw [trimEnd, List.mem_reverse] at hc
  exact List.mem_reverse.mp ((List.dropWhile_sublist isSpace).subset hc)

theorem trim_subset (text : List Char) : trim text ⊆ text :=
  (trim_isInfix text).subset

/-- Replacing takes characters from the text and from the replacement only. -/
theorem mem_of_mem_replaceFrom {pattern replacement : List Char} {c : Char} {skip : Nat} {text : List Char}
    (h : c ∈ replaceFrom pattern replacement skip text) : c ∈ replacement ∨ c ∈ text := by
  fun_induction replaceFrom pattern replacement skip text with
  | case1 => cases h
  | case2 skip first rest ih => exact (ih h).imp_right (List.mem_cons_of_mem _)
  | case3 first rest hprefix ih =>
    obtain h | h := List.mem_append.mp h
    · exact .inl h
    · exact (ih h).imp_right (List.mem_cons_of_mem _)
  | case4 first rest hprefix ih =>
    obtain rfl | h := List.mem_cons.mp h
    · exact .inr List.mem_cons_self
    · exact (ih h).imp_right (List.mem_cons_of_mem _)

/-- Every character after a replacement is one of the replacement or was there
    before. -/
theorem mem_of_mem_replace {pattern replacement text : List Char} {c : Char}
    (h : c ∈ replace pattern replacement text) : c ∈ replacement ∨ c ∈ text := by
  rw [replace] at h
  split at h
  · induction text with
    | nil => exact .inl h
    | cons first rest ih =>
      rw [List.foldr_cons, List.mem_append, List.mem_cons] at h
      obtain h | rfl | h := h
      · exact .inl h
      · exact .inr List.mem_cons_self
      · exact (ih h).imp_right (List.mem_cons_of_mem _)
  · exact mem_of_mem_replaceFrom h

/-- No line of a text has a line feed in it. -/
theorem newline_notMem_lines (text : List Char) : ∀ line ∈ lines text, '\n' ∉ line := by
  fun_induction lines text with
  | case1 => nofun
  | case2 rest ih => exact List.forall_mem_cons.mpr ⟨List.not_mem_nil, ih⟩
  | case3 rest ih => exact List.forall_mem_cons.mpr ⟨List.not_mem_nil, ih⟩
  | case4 c rest hfeed _ ih => exact notMem_prependToFirst hfeed ih

private theorem ofNat_ne_newline {code : Nat} (h : code ≠ 10) : Char.ofNat code ≠ '\n' := by
  intro heq
  by_cases hvalid : code.isValidChar
  · have hcode : (Char.ofNat code).toNat = code := by
      rw [Char.ofNat, dif_pos hvalid]
      rfl
    rw [heq] at hcode
    exact h hcode.symm
  · rw [Char.ofNat, dif_neg hvalid] at heq
    cases heq

private theorem toUpper_ne_newline {c : Char} (hascii : c.toNat < 128) (hc : c ≠ '\n') : c.toUpper ≠ '\n' := by
  have hall : ∀ code < 128, code ≠ 10 → (Char.ofNat code).toUpper ≠ '\n' := by decide
  have hcode : c.toNat ≠ 10 := by
    intro hcode
    apply hc
    rw [← Char.ofNat_toNat c, hcode]
  rw [← Char.ofNat_toNat c]
  exact hall c.toNat hascii hcode

/-- No other character becomes a line feed in upper case: the tables lead to
    letters and marks only. -/
theorem newline_notMem_uppercase {c : Char} (hc : c ≠ '\n') : '\n' ∉ uppercase c := by
  have hexpansions : uppercaseExpansions.all (fun expansion => expansion.2.all (· ≠ 10)) = true := by
    decide +kernel
  have hruns : uppercaseRuns.all (fun run => 10 < run.1 + run.2.2.2) = true := by
    decide +kernel
  unfold uppercase
  split
  · next hascii => simpa using (toUpper_ne_newline hascii hc).symm
  · split
    · next codes hfound =>
      have hcodes := List.all_eq_true.mp hexpansions _ (List.mem_of_find?_eq_some hfound)
      rw [List.mem_map]
      rintro ⟨code, hmem, heq⟩
      exact ofNat_ne_newline (of_decide_eq_true (List.all_eq_true.mp hcodes code hmem)) heq
    · split
      · next first last step offset hfound =>
        have hoffset := List.all_eq_true.mp hruns _ (List.mem_of_find?_eq_some hfound)
        have hrange := List.find?_some hfound
        simp only [Bool.and_eq_true, decide_eq_true_eq] at hoffset hrange
        have hcode : (c.toNat + offset).toNat ≠ 10 := by omega
        simpa using (ofNat_ne_newline hcode).symm
      · simpa using hc.symm

end Text

/-- Trimming leaves a line one line. -/
theorem OneLine.trimmed {s : String} (h : OneLine s) : OneLine (trimmed s) :=
  oneLine_ofList.mpr fun hmem => h (Text.trim_subset _ hmem)

/-- Replacing by one line leaves a line one line. -/
theorem OneLine.replaceAll {replacement s : String} (pattern : String) (hreplacement : OneLine replacement)
    (hs : OneLine s) : OneLine (replaceAll pattern replacement s) := by
  rw [JavaSource.replaceAll, oneLine_ofList]
  intro hmem
  exact (Text.mem_of_mem_replace hmem).elim hreplacement hs

/-- A capital letter at its front leaves a name one line. -/
theorem OneLine.capitalize {name : String} (h : OneLine name) : OneLine (capitalize name) := by
  unfold JavaSource.capitalize
  rw [OneLine] at h
  split
  · decide
  · next first rest hname =>
    rw [hname, List.mem_cons, not_or] at h
    rw [oneLine_ofList, List.mem_append, not_or]
    exact ⟨Text.newline_notMem_uppercase (Ne.symm h.1), h.2⟩

/-- The line feeds of a string are escaped in its literal. -/
theorem oneLine_quoted (s : String) : OneLine (quoted s) :=
  oneLine_ofList.mpr (Text.notMem_quote (by decide) s.toList)

private theorem newline_notMem_toDigits (n : Nat) : '\n' ∉ Nat.toDigits 10 n := by
  intro hmem
  exact absurd (Nat.isDigit_of_mem_toDigits (by decide) (by decide) hmem) (by decide)

private theorem oneLine_repr (n : Nat) : OneLine n.repr := by
  rw [OneLine, Nat.toList_repr]
  exact newline_notMem_toDigits n

/-- An integer is written on one line. -/
theorem oneLine_toString : ∀ n : Int, OneLine (toString n)
  | .ofNat n => oneLine_repr n
  | .negSucc n => oneLine_append.mpr ⟨by decide, oneLine_repr n.succ⟩

namespace Decimal

/-- The digits of a number and its point are one line. -/
theorem newline_notMem_positional (d : Decimal) : '\n' ∉ d.positional := by
  have hdigits := newline_notMem_toDigits d.coefficient
  unfold positional
  split
  · simp [hdigits]
  · split
    · rw [List.mem_append, List.mem_cons]
      rintro (hmem | hmem | hmem)
      · exact hdigits (List.mem_of_mem_take hmem)
      · cases hmem
      · exact hdigits (List.mem_of_mem_drop hmem)
    · simp [hdigits]

theorem newline_notMem_scientific (d : Decimal) : '\n' ∉ d.scientific := by
  have hdigits := newline_notMem_toDigits d.coefficient
  have hpower : '\n' ∉ (toString d.magnitude).toList := oneLine_toString d.magnitude
  unfold scientific
  split
  · simpa using hpower
  · next digit heq =>
    rw [heq, List.mem_singleton] at hdigits
    simpa [hdigits] using hpower
  · next digit rest _ heq =>
    rw [heq, List.mem_cons, not_or] at hdigits
    simpa [hdigits] using hpower

/-- A decimal number is written on one line in either way. -/
theorem newline_notMem_text (d : Decimal) : '\n' ∉ d.text := by
  unfold text
  split
  · exact d.newline_notMem_positional
  · exact d.newline_notMem_scientific

end Decimal

/-- A number is written on one line, whether or not it is finite. -/
theorem Double.oneLine_literal (d : Double) : OneLine d.literal := by
  have hmagnitude : '\n' ∉ (if d.isZero then ['0', '.', '0'] else d.toBinary.shortest.text) := by
    split
    · decide
    · exact Decimal.newline_notMem_text _
  unfold literal
  split
  · decide
  · split
    · split <;> decide
    · rw [oneLine_ofList]
      split
      · simpa using hmagnitude
      · exact hmagnitude

/-- A value is written on one line, if the name of its type is. Line feeds of a
    string are escaped. -/
theorem AttributeValue.oneLine_literal : ∀ (value : AttributeValue),
    (∀ t, value = .type t → OneLine t.simpleName) → OneLine value.literal
  | .type t, h => oneLine_append.mpr ⟨h t rfl, by decide⟩
  | .integer n, _ => oneLine_toString n
  | .double d, _ => d.oneLine_literal
  | .boolean true, _ => by decide
  | .boolean false, _ => by decide
  | .string s, _ => oneLine_quoted s

/-- The lines of a body are lines of its text whose ends are trimmed. -/
theorem Body.exists_of_mem_contentLines {body line : List Char} (h : line ∈ contentLines body) :
    ∃ whole ∈ Text.lines body, Text.trimEnd whole = line := by
  rw [contentLines, List.mem_reverse] at h
  have h := (List.dropWhile_sublist _).subset h
  rw [List.mem_reverse] at h
  exact List.mem_map.mp ((List.dropWhile_sublist _).subset h)

/-- No line of a block has a line feed in it. -/
theorem Body.newline_notMem_contentLines (body : List Char) : ∀ line ∈ contentLines body, '\n' ∉ line := by
  intro line hline
  obtain ⟨whole, hwhole, rfl⟩ := exists_of_mem_contentLines hline
  exact fun hmem => Text.newline_notMem_lines body whole hwhole (Text.trimEnd_subset whole hmem)

/-- A margin is made of spaces or tabs. -/
theorem Indent.oneLine_margin (indent : Indent) (level : Nat) : OneLine (indent.margin level) := by
  intro hmem
  obtain h | h := mem_margin hmem <;> cases h

variable {lines : List String}

private theorem toList_joinLines_cons (line : String) (lines : List String) :
    (joinLines (line :: lines)).toList = line.toList ++ '\n' :: (joinLines lines).toList := by
  simp [joinLines, String.toList_join]

/-- Lines that are written one below the other are found again between the line
    feeds, and nothing is behind the last one. -/
theorem pieces_joinLines (h : ∀ line ∈ lines, OneLine line) :
    Text.pieces '\n' (joinLines lines).toList = lines.map String.toList ++ [[]] := by
  induction lines with
  | nil => rfl
  | cons line lines ih =>
    obtain ⟨hline, hlines⟩ := List.forall_mem_cons.mp h
    rw [toList_joinLines_cons, Text.pieces_append_cons hline, ih hlines, List.map_cons, List.cons_append]

/-- Each line has one line feed behind it, and there are no others. -/
theorem count_joinLines (h : ∀ line ∈ lines, OneLine line) :
    (joinLines lines).toList.count '\n' = lines.length := by
  induction lines with
  | nil => rfl
  | cons line lines ih =>
    obtain ⟨hline, hlines⟩ := List.forall_mem_cons.mp h
    rw [toList_joinLines_cons, List.count_append, List.count_eq_zero_of_not_mem hline, List.count_cons_self,
      ih hlines, Nat.zero_add, List.length_cons]

end JavaSource
