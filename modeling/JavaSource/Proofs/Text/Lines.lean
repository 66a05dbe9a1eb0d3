import JavaSource.Proofs.Text.Pieces
import JavaSource.Proofs.Text.Trim

namespace JavaSource.Text

/-- The lines of a text. A line is ended by a line feed or by a carriage return and a line
    feed, and the last one need not be ended. A carriage return elsewhere is part of its line. -/
inductive InLines : List Char → List (List Char) → Prop where
  | nil : InLines [] []
  | last {line : List Char} (hne : line ≠ []) (hline : '\n' ∉ line) : InLines line [line]
  | feed {line rest : List Char} {more : List (List Char)} (hline : '\n' ∉ line)
      (hreturn : line.getLast? ≠ some '\r') (hrest : InLines rest more) :
      InLines (line ++ '\n' :: rest) (line :: more)
  | returnFeed {line rest : List Char} {more : List (List Char)} (hline : '\n' ∉ line)
      (hrest : InLines rest more) : InLines (line ++ '\r' :: '\n' :: rest) (line :: more)

/-- A text has one line only, or a first line and a text behind the line feed that ends it. -/
@[elab_as_elim]
theorem line_induction {motive : List Char → Prop} (last : ∀ line, '\n' ∉ line → motive line)
    (cons : ∀ line rest, '\n' ∉ line → motive rest → motive (line ++ '\n' :: rest)) (text : List Char) :
    motive text := by
  by_cases hfeed : '\n' ∈ text
  · obtain ⟨line, rest, htext, hline⟩ := List.eq_append_cons_of_mem hfeed
    have hlength : rest.length < text.length := by
      rw [htext, List.length_append, List.length_cons]
      omega
    rw [htext]
    exact cons line rest hline (line_induction last cons rest)
  · exact last text hfeed
termination_by text.length

variable {text line : List Char} {whole : List (List Char)}

private theorem lines_cons {c : Char} {rest : List Char} (hfeed : c ≠ '\n')
    (hreturn : rest.head? = some '\n' → c ≠ '\r') : lines (c :: rest) = prependToFirst c (lines rest) := by
  rw [lines]
  · exact hfeed
  · rintro tail rfl rfl
    exact hreturn rfl rfl

/-- Text without line feeds goes to the first line of what is behind it, unless its last
    character is a part of the line's end. -/
private theorem lines_append {front rest first : List Char} {more : List (List Char)} (hfront : '\n' ∉ front)
    (hreturn : rest.head? = some '\n' → front.getLast? ≠ some '\r') (hrest : lines rest = first :: more) :
    lines (front ++ rest) = (front ++ first) :: more := by
  induction front with
  | nil => exact hrest
  | cons c front ih =>
    rw [List.mem_cons, not_or] at hfront
    cases front with
    | nil =>
      have hc : rest.head? = some '\n' → c ≠ '\r' := fun h heq => hreturn h (by rw [heq, List.getLast?_singleton])
      rw [List.cons_append, List.nil_append, lines_cons (Ne.symm hfront.1) hc, hrest, prependToFirst]
      rfl
    | cons d front =>
      rw [List.getLast?_cons_cons] at hreturn
      have hd : (d :: front ++ rest).head? = some '\n' → c ≠ '\r' := fun h =>
        absurd (Option.some.inj h).symm (List.ne_of_not_mem_cons hfront.2)
      rw [List.cons_append, lines_cons (Ne.symm hfront.1) hd, ih hfront.2 hreturn, prependToFirst]
      rfl

/-- A text has no other lines than those found by scanning it. -/
theorem InLines.lines_eq (h : InLines text whole) : lines text = whole := by
  induction h with
  | nil => rfl
  | @last line hne hline =>
    obtain ⟨front, c, rfl⟩ := (List.eq_nil_or_concat' line).resolve_left hne
    rw [List.mem_append, List.mem_singleton, not_or] at hline
    have hlast : lines [c] = [] ++ [[c]] := lines_cons (Ne.symm hline.2) (by simp)
    exact lines_append hline.1 (fun h => absurd (Option.some.inj h).symm hline.2) hlast
  | @feed line rest more hline hreturn _ ih =>
    have hfeed : lines ('\n' :: rest) = [] :: more := by rw [lines, ih]
    rw [lines_append hline (fun _ => hreturn) hfeed, List.append_nil]
  | @returnFeed line rest more hline _ ih =>
    have hend : lines ('\r' :: '\n' :: rest) = [] :: more := by rw [lines, ih]
    have hhead : ('\r' :: '\n' :: rest).head? ≠ some '\n' := by simp
    rw [lines_append hline (fun h => absurd h hhead) hend, List.append_nil]

private theorem inLines_lines (text : List Char) : InLines text (lines text) := by
  have hexists : ∃ whole, InLines text whole := by
    induction text using line_induction with
    | last line hline =>
      by_cases hne : line = []
      · exact ⟨[], hne ▸ .nil⟩
      · exact ⟨[line], .last hne hline⟩
    | cons line rest hline ih =>
      obtain ⟨more, hrest⟩ := ih
      by_cases hreturn : line.getLast? = some '\r'
      · obtain ⟨front, rfl⟩ := List.getLast?_eq_some_iff.mp hreturn
        have hfront : '\n' ∉ front := fun hmem => hline (List.mem_append_left _ hmem)
        refine ⟨front :: more, ?_⟩
        rw [List.append_assoc, List.singleton_append]
        exact .returnFeed hfront hrest
      · exact ⟨line :: more, .feed hline hreturn hrest⟩
  obtain ⟨whole, hwhole⟩ := hexists
  rw [hwhole.lines_eq]
  exact hwhole

/-- The scan finds the lines of a text. -/
theorem lines_eq_iff : lines text = whole ↔ InLines text whole :=
  ⟨fun h => h ▸ inLines_lines text, InLines.lines_eq⟩

/-- The pieces between the line feeds of a text, without the white space at their ends. -/
def trimmedPieces (text : List Char) : List (List Char) :=
  (pieces '\n' text).map trimEnd

/-- A text without line feeds is one piece. -/
theorem trimmedPieces_of_notMem (h : '\n' ∉ line) : trimmedPieces line = [trimEnd line] := by
  rw [trimmedPieces, pieces_of_notMem h, List.map_singleton]

theorem trimmedPieces_append (front back : List Char) :
    trimmedPieces (front ++ '\n' :: back) = trimmedPieces front ++ trimmedPieces back := by
  rw [trimmedPieces, pieces_append_separator, List.map_append, trimmedPieces, trimmedPieces]

/-- White space in front of a line feed, or of the end of the text, does not count. -/
theorem trimmedPieces_append_of_blank {space : List Char} (hblank : Blank space) (hfeed : '\n' ∉ space)
    (text : List Char) : trimmedPieces (text ++ space) = trimmedPieces text := by
  induction text using line_induction with
  | last line hline =>
    have happend : '\n' ∉ line ++ space := by simp [hline, hfeed]
    rw [trimmedPieces_of_notMem happend, trimmedPieces_of_notMem hline, trimEnd_append_of_blank hblank]
  | cons line rest hline ih =>
    rw [List.append_assoc, List.cons_append, trimmedPieces_append, ih, trimmedPieces_append]

/-- Only a blank text has nothing but empty pieces. -/
theorem forall_trimmedPieces_iff : (∀ piece ∈ trimmedPieces text, piece = []) ↔ Blank text := by
  induction text using line_induction with
  | last line hline =>
    rw [trimmedPieces_of_notMem hline, List.forall_mem_singleton, trimEnd_eq_nil_iff]
  | cons line rest hline ih =>
    have hfeed : isSpace '\n' = true := rfl
    rw [trimmedPieces_append, trimmedPieces_of_notMem hline, List.forall_mem_append, List.forall_mem_singleton,
      trimEnd_eq_nil_iff, ih]
    simp [Blank, hfeed, or_imp, forall_and]

/-- The lines are the pieces, but for carriage returns at their ends and an empty piece
    behind the last line feed. -/
theorem trimmedPieces_eq (h : InLines text whole) :
    trimmedPieces text = whole.map trimEnd ∨ trimmedPieces text = whole.map trimEnd ++ [[]] := by
  induction h with
  | nil => exact .inr rfl
  | last hne hline => exact .inl (trimmedPieces_of_notMem hline)
  | feed hline _ _ ih =>
    rw [trimmedPieces_append, trimmedPieces_of_notMem hline, List.singleton_append, List.map_cons, List.cons_append]
    exact ih.imp (congrArg _) (congrArg _)
  | @returnFeed line rest more hline _ ih =>
    have hsplit : line ++ '\r' :: '\n' :: rest = (line ++ ['\r']) ++ '\n' :: rest := by simp
    rw [hsplit, trimmedPieces_append, trimmedPieces_append_of_blank .carriageReturn (by decide),
      trimmedPieces_of_notMem hline, List.singleton_append, List.map_cons, List.cons_append]
    exact ih.imp (congrArg _) (congrArg _)

end JavaSource.Text
