import JavaSource.Text.Pieces
import Mathlib.Data.List.Basic

namespace JavaSource.Text

variable {separator : Char} {text : List Char}

/-- The pieces are what the library splits a list into. -/
theorem pieces_eq_splitOn (separator : Char) (text : List Char) :
    pieces separator text = text.splitOn separator := by
  induction text with
  | nil => rfl
  | cons c rest ih =>
    obtain ⟨first, more, hrest⟩ := List.exists_cons_of_ne_nil (List.splitOnP_ne_nil (· == separator) rest)
    rw [pieces, ih, List.splitOn, List.splitOn, List.splitOnP_cons_eq_if_modifyHead, hrest]
    by_cases hc : c = separator
    · rw [if_pos hc, if_pos (beq_iff_eq.mpr hc)]
    · rw [if_neg hc, if_neg (by simpa using hc)]
      rfl

theorem pieces_ne_nil (separator : Char) (text : List Char) : pieces separator text ≠ [] := by
  rw [pieces_eq_splitOn]
  exact List.splitOnP_ne_nil _ text

/-- A separator between two texts parts them, and the pieces of each are what they were. -/
theorem pieces_append_separator (separator : Char) (front back : List Char) :
    pieces separator (front ++ separator :: back) = pieces separator front ++ pieces separator back := by
  simp only [pieces_eq_splitOn, List.splitOn]
  exact List.splitOnP_append_cons front back (beq_self_eq_true separator)

/-- Without the separator a text is one piece. -/
theorem pieces_of_notMem {text : List Char} (h : separator ∉ text) : pieces separator text = [text] := by
  rw [pieces_eq_splitOn]
  exact List.splitOnP_eq_singleton fun c hc => beq_eq_false_iff_ne.mpr fun heq => h (heq ▸ hc)

theorem pieces_append_cons {text : List Char} (h : separator ∉ text) (rest : List Char) :
    pieces separator (text ++ separator :: rest) = text :: pieces separator rest := by
  rw [pieces_append_separator, pieces_of_notMem h]
  rfl

/-- What marks no line before marks none when another character begins the first one. -/
theorem notMem_prependToFirst {mark c : Char} (hc : c ≠ mark) {texts : List (List Char)}
    (h : ∀ line ∈ texts, mark ∉ line) : ∀ line ∈ prependToFirst c texts, mark ∉ line := by
  intro line hline
  cases texts with
  | nil =>
    obtain rfl := List.mem_singleton.mp hline
    simpa using hc.symm
  | cons first more =>
    obtain rfl | hmore := List.mem_cons.mp hline
    · rw [List.mem_cons, not_or]
      exact ⟨hc.symm, h first List.mem_cons_self⟩
    · exact h line (List.mem_cons_of_mem _ hmore)

/-- No piece has the separator in it, nor a character that is not in the text. -/
theorem notMem_of_mem_pieces {mark : Char} (h : mark = separator ∨ mark ∉ text) :
    ∀ piece ∈ pieces separator text, mark ∉ piece := by
  induction text with
  | nil =>
    intro piece hpiece
    obtain rfl := List.mem_singleton.mp hpiece
    exact List.not_mem_nil
  | cons c rest ih =>
    have hrest := ih (h.imp_right fun hmem => mt (List.mem_cons_of_mem c) hmem)
    rw [pieces]
    split
    · exact List.forall_mem_cons.mpr ⟨List.not_mem_nil, hrest⟩
    · next hc =>
      refine notMem_prependToFirst ?_ hrest
      rintro rfl
      exact h.elim hc fun hmem => hmem List.mem_cons_self

end JavaSource.Text
