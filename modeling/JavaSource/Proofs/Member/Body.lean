import JavaSource.Member.Body
import JavaSource.Proofs.Collections.Edges
import JavaSource.Proofs.Text.Lines
import JavaSource.Proofs.Text.OneLine
import Mathlib.Logic.Relation

namespace JavaSource.Body

open Text (Blank InLines isSpace lines trimEnd trimmedPieces)

/-- Where the first line that has text stands, or where the lines end if none has. -/
def start (whole : List (List Char)) : Nat :=
  whole.findIdx (! ·.isEmpty)

/-- Where the last line that has text ends. -/
def stop (whole : List (List Char)) : Nat :=
  match whole.reverse.findIdx? (! ·.isEmpty) with
  | some i => whole.length - 1 - i + 1
  | none => start whole

/-- The elements between two positions, if the positions are in order and in the list. -/
def slice? {α : Type} (elements : List α) (start stop : Nat) : Option (List α) :=
  if start ≤ stop ∧ stop ≤ elements.length then some ((elements.take stop).drop start) else none

variable {whole kept : List (List Char)}

private theorem findIdx_append_cons {α : Type} {p : α → Bool} {front : List α} {x : α}
    (hfront : ∀ y ∈ front, p y = false) (hx : p x = true) (rest : List α) :
    (front ++ x :: rest).findIdx p = front.length := by
  induction front with
  | nil => simp [List.findIdx_cons, hx]
  | cons y front ih =>
    obtain ⟨hy, hfront⟩ := List.forall_mem_cons.mp hfront
    simp [List.findIdx_cons, hy, ih hfront]

/-- The text of a body starts behind the empty lines above it. -/
theorem start_append_cons {above : List (List Char)} {first : List Char} (habove : ∀ line ∈ above, line.isEmpty = true)
    (hfirst : first.isEmpty = false) (rest : List (List Char)) : start (above ++ first :: rest) = above.length :=
  findIdx_append_cons (fun line hline => by simp [habove line hline]) (by simp [hfirst]) rest

/-- It stops in front of the empty lines below it. -/
theorem stop_append_cons {below : List (List Char)} {last : List Char} (hlast : last.isEmpty = false)
    (hbelow : ∀ line ∈ below, line.isEmpty = true) (front : List (List Char)) :
    stop (front ++ last :: below) = front.length + 1 := by
  have hreverse : (front ++ last :: below).reverse = below.reverse ++ last :: front.reverse := by simp
  have hindex : (front ++ last :: below).reverse.findIdx? (! ·.isEmpty) = some below.length := by
    rw [List.findIdx?_eq_some_iff_findIdx_eq, hreverse, findIdx_append_cons, List.length_reverse]
    · simp
    · exact fun line hline => by simp [hbelow line (List.mem_reverse.mp hline)]
    · simp [hlast]
  rw [stop, hindex, List.length_append, List.length_cons]
  dsimp only
  omega

/-- Where no line has text, both positions are behind the last line. -/
theorem start_stop_of_empty (h : ∀ line ∈ whole, line.isEmpty = true) :
    start whole = whole.length ∧ stop whole = whole.length := by
  have hstart : start whole = whole.length :=
    List.findIdx_eq_length.mpr fun line hline => by simp [h line hline]
  have hnone : whole.reverse.findIdx? (! ·.isEmpty) = none :=
    List.findIdx?_eq_none_iff.mpr fun line hline => by simp [h line (List.mem_reverse.mp hline)]
  exact ⟨hstart, by rw [stop, hnone, hstart]⟩

/-- The positions are always in order and in range, and between them stand the lines that
    are left when the empty lines at both ends are taken away. -/
theorem slice?_of_withoutEdges (h : WithoutEdges List.isEmpty whole kept) :
    slice? whole (start whole) (stop whole) = some kept := by
  by_cases hnil : kept = []
  · obtain ⟨hstart, hstop⟩ := start_stop_of_empty (h.eq_nil_iff.mp hnil)
    rw [slice?, hstart, hstop, if_pos ⟨Nat.le_refl _, Nat.le_refl _⟩, List.take_length, List.drop_length, hnil]
  · obtain ⟨above, below, hwhole, habove, hbelow⟩ := h.within
    obtain ⟨first, more, hfirst⟩ := List.exists_cons_of_ne_nil hnil
    obtain ⟨front, last, hlast⟩ := (List.eq_nil_or_concat' kept).resolve_left hnil
    have hstart : start whole = above.length := by
      rw [hwhole, hfirst, List.append_assoc, List.cons_append]
      exact start_append_cons habove (h.head first (by rw [hfirst, List.head?_cons])) _
    have hstop : stop whole = (above ++ kept).length := by
      rw [hwhole, hlast, ← List.append_assoc, List.append_assoc, List.singleton_append,
        stop_append_cons (h.last last (by rw [hlast, List.getLast?_concat])) hbelow]
      simp [Nat.add_assoc]
    have hrange : above.length ≤ (above ++ kept).length ∧ (above ++ kept).length ≤ whole.length := by
      rw [hwhole]
      simp
    rw [slice?, hstart, hstop, if_pos hrange, hwhole, List.take_left, List.drop_left]

/-- The positions decide what is kept, so there is one way only to take the edges away. -/
theorem kept_unique {other : List (List Char)} (h : WithoutEdges List.isEmpty whole kept)
    (hother : WithoutEdges List.isEmpty whole other) : kept = other :=
  Option.some.inj ((slice?_of_withoutEdges h).symm.trans (slice?_of_withoutEdges hother))

/-- A block has the lines of a body, trimmed, without the empty ones at both ends.
    -/
theorem withoutEdges_contentLines (body : List Char) :
    WithoutEdges List.isEmpty ((lines body).map trimEnd) (contentLines body) :=
  withoutEdges_dropWhile _ _

/-- It does not matter how the lines of a body are ended. -/
theorem withoutEdges_trimmedPieces (body : List Char) :
    WithoutEdges List.isEmpty (trimmedPieces body) (contentLines body) := by
  have hlines := withoutEdges_contentLines body
  obtain heq | heq := Text.trimmedPieces_eq (Text.lines_eq_iff.mp rfl)
  · rwa [heq]
  · rw [heq]
    have hnone : ∀ line ∈ ([] : List (List Char)), line.isEmpty = true := nofun
    exact hlines.surround hnone (by simp)

/-- A block is empty exactly if its body is blank. -/
theorem contentLines_eq_nil_iff {body : List Char} : contentLines body = [] ↔ Blank body := by
  rw [(withoutEdges_trimmedPieces body).eq_nil_iff, ← Text.forall_trimmedPieces_iff]
  simp only [List.isEmpty_iff]

/-- Two spellings of one body. The second has blank lines above, white space of any kind
    behind all its lines, white space at the end of one of them, or a carriage return as well
    as a line feed at the end of one. -/
inductive Respelt : List Char → List Char → Prop where
  | above {front : List Char} (hfront : Blank front) (body : List Char) : Respelt body (front ++ '\n' :: body)
  | below {back : List Char} (hback : Blank back) (body : List Char) : Respelt body (body ++ back)
  | trailing {space : List Char} (hspace : Blank space) (hfeed : '\n' ∉ space) (front back : List Char) :
      Respelt (front ++ '\n' :: back) (front ++ space ++ '\n' :: back)
  | returnFeed (front back : List Char) : Respelt (front ++ '\n' :: back) (front ++ '\r' :: '\n' :: back)

/-- Empty pieces more above and below make no difference. -/
theorem contentLines_of_trimmedPieces {body other : List Char} (above below : List (List Char))
    (habove : ∀ line ∈ above, line = []) (hbelow : ∀ line ∈ below, line = [])
    (h : trimmedPieces other = above ++ trimmedPieces body ++ below) : contentLines other = contentLines body := by
  have hbody := (withoutEdges_trimmedPieces body).surround (fun line hline => List.isEmpty_iff.mpr (habove line hline))
    fun line hline => List.isEmpty_iff.mpr (hbelow line hline)
  rw [← h] at hbody
  exact kept_unique (withoutEdges_trimmedPieces other) hbody

/-- White space behind a body does not change its block. -/
theorem contentLines_append_blank {back : List Char} (hback : Blank back) (body : List Char) :
    contentLines (body ++ back) = contentLines body := by
  by_cases hfeed : '\n' ∈ back
  · obtain ⟨space, rest, rfl, hspace⟩ := List.eq_append_cons_of_mem hfeed
    have hblank : Blank space := fun c hc => hback c (List.mem_append_left _ hc)
    have hrest : Blank rest := fun c hc => hback c (List.mem_append_right _ (List.mem_cons_of_mem _ hc))
    refine contentLines_of_trimmedPieces [] _ nofun (Text.forall_trimmedPieces_iff.mpr hrest) ?_
    rw [← List.append_assoc, Text.trimmedPieces_append, Text.trimmedPieces_append_of_blank hblank hspace,
      List.nil_append]
  · refine contentLines_of_trimmedPieces [] [] nofun nofun ?_
    rw [Text.trimmedPieces_append_of_blank hback hfeed, List.nil_append, List.append_nil]

/-- A body spelt in another way has the same block. -/
theorem Respelt.contentLines_eq {body other : List Char} (h : Respelt body other) :
    contentLines body = contentLines other := by
  symm
  cases h with
  | above hfront =>
    refine contentLines_of_trimmedPieces _ [] (Text.forall_trimmedPieces_iff.mpr hfront) nofun ?_
    rw [Text.trimmedPieces_append, List.append_nil]
  | below hback => exact contentLines_append_blank hback body
  | trailing hspace hfeed front back =>
    refine contentLines_of_trimmedPieces [] [] nofun nofun ?_
    rw [Text.trimmedPieces_append, Text.trimmedPieces_append_of_blank hspace hfeed, Text.trimmedPieces_append,
      List.nil_append, List.append_nil]
  | returnFeed front back =>
    refine contentLines_of_trimmedPieces [] [] nofun nofun ?_
    have hsplit : front ++ '\r' :: '\n' :: back = front ++ ['\r'] ++ '\n' :: back := by simp
    rw [hsplit, Text.trimmedPieces_append, Text.trimmedPieces_append_of_blank Blank.carriageReturn (by decide),
      Text.trimmedPieces_append, List.nil_append, List.append_nil]

/-- So have bodies that come from one another by several such changes. -/
theorem contentLines_of_eqvGen {body other : List Char} (h : Relation.EqvGen Respelt body other) :
    contentLines body = contentLines other := by
  induction h with
  | rel _ _ hstep => exact hstep.contentLines_eq
  | refl => rfl
  | symm _ _ _ ih => exact ih.symm
  | trans _ _ _ _ _ hfirst hsecond => exact hfirst.trans hsecond

/-- The text of a body as it is written, one line below the other. -/
def normalized (body : String) : String :=
  String.ofList (['\n'].intercalate (contentLines body.toList))

/-- No line of a block has white space at its end. -/
theorem trimEnd_of_mem_contentLines {body line : List Char} (h : line ∈ contentLines body) : trimEnd line = line := by
  obtain ⟨_, _, rfl⟩ := exists_of_mem_contentLines h
  exact Text.trimEnd_trimEnd _

/-- The lines of a block, joined to a body, have the same block. -/
theorem contentLines_intercalate (body : List Char) :
    contentLines (['\n'].intercalate (contentLines body)) = contentLines body := by
  by_cases hnil : contentLines body = []
  · rw [hnil]
    rfl
  · have hpieces : Text.pieces '\n' (['\n'].intercalate (contentLines body)) = contentLines body := by
      rw [Text.pieces_eq_splitOn]
      exact List.splitOn_intercalate '\n' (newline_notMem_contentLines body) hnil
    have htrim : trimmedPieces (['\n'].intercalate (contentLines body)) = contentLines body := by
      rw [trimmedPieces, hpieces, List.map_congr_left fun line => trimEnd_of_mem_contentLines, List.map_id']
    have hkept := withoutEdges_trimmedPieces (['\n'].intercalate (contentLines body))
    rw [htrim] at hkept
    exact kept_unique hkept (withoutEdges_trimmedPieces body).refl_kept

/-- A body that is missing or blank has no fragments, and no other. -/
theorem fragments_eq_nil_iff {body : Option String} :
    fragments body = [] ↔ ∀ text, body = some text → isBlank text = true := by
  cases body with
  | none => simp [fragments]
  | some text => simp [fragments, contentLines_eq_nil_iff, isBlank_iff_blank]

theorem lineFragment_of_ne_nil {line : List Char} (h : line ≠ []) : lineFragment line = .line (String.ofList line) :=
  if_neg (by simpa using h)

/-- A line without characters is written as a blank line, and no other. -/
theorem lineFragment_eq_blank_iff {line : List Char} : lineFragment line = .blank ↔ line.isEmpty = true := by
  unfold lineFragment
  split
  · next h => simp [h]
  · next h => simp [h]

private theorem map_lineFragment_ne_blank {edge : Option (List Char)}
    (h : ∀ line, edge = some line → line.isEmpty = false) : edge.map lineFragment ≠ some .blank := by
  intro hmap
  obtain ⟨line, hline, hblank⟩ := Option.map_eq_some_iff.mp hmap
  rw [lineFragment_eq_blank_iff, h line hline] at hblank
  cases hblank

/-- A block does not begin with a blank line. -/
theorem head?_fragments (body : Option String) : (fragments body).head? ≠ some .blank := by
  cases body with
  | none => exact nofun
  | some text =>
    rw [fragments, List.head?_map]
    exact map_lineFragment_ne_blank (withoutEdges_contentLines text.toList).head

/-- Nor does it end with one. -/
theorem getLast?_fragments (body : Option String) : (fragments body).getLast? ≠ some .blank := by
  cases body with
  | none => exact nofun
  | some text =>
    rw [fragments, List.getLast?_map]
    exact map_lineFragment_ne_blank (withoutEdges_contentLines text.toList).last

/-- Nothing is left of a line of white space. -/
theorem isEmpty_trimEnd (line : List Char) : (trimEnd line).isEmpty = line.all isSpace := by
  rw [Bool.eq_iff_iff, List.isEmpty_iff, Text.trimEnd_eq_nil_iff, List.all_eq_true]
  rfl

/-- The lines that have text are all kept, in their order. -/
theorem filter_fragments (text : String) :
    (fragments (some text)).filter (· ≠ .blank) =
      ((lines text.toList).filter (! ·.all isSpace)).map fun line => .line (String.ofList (trimEnd line)) := by
  have hkept := (withoutEdges_contentLines text.toList).filter_eq
  have htext : (fun f : Fragment => decide (f ≠ .blank)) ∘ lineFragment = (! ·.isEmpty) := by
    funext line
    rw [Bool.eq_iff_iff]
    simp [lineFragment_eq_blank_iff]
  have htrim : (! ·.isEmpty) ∘ trimEnd = (! ·.all isSpace) := by
    funext line
    rw [Function.comp_apply, isEmpty_trimEnd]
  rw [fragments, List.filter_map, htext, ← hkept, List.filter_map, htrim, List.map_map]
  -- A line that is not blank has text left when its end is trimmed.
  refine List.map_congr_left fun line hline => lineFragment_of_ne_nil ?_
  intro hnil
  have hspace := (List.mem_filter.mp hline).2
  rw [← isEmpty_trimEnd, hnil] at hspace
  cases hspace

/-- The block of a body has the lines of its text without the white space at their ends and
    without the empty ones above and below, and what is not seen in the text, as more white
    space there or the other way to end a line, makes no difference. -/
theorem block_drops_blank_edges (signature : String) :
    (∀ body, block signature body = .block (signature ++ openBrace) (fragments body) (some closeBrace) ∧
      (fragments body = [] ↔ ∀ text, body = some text → isBlank text = true) ∧
      (fragments body).head? ≠ some .blank ∧ (fragments body).getLast? ≠ some .blank) ∧
    (∀ text : String, ∃ whole kept, InLines text.toList whole ∧
      slice? (whole.map trimEnd) (start (whole.map trimEnd)) (stop (whole.map trimEnd)) = some kept ∧
      WithoutEdges List.isEmpty (whole.map trimEnd) kept ∧
      fragments (some text) = kept.map lineFragment ∧
      (fragments (some text)).filter (· ≠ .blank) =
        (whole.filter (! ·.all isSpace)).map fun line => .line (String.ofList (trimEnd line))) ∧
    (∀ line, (∃ space, Blank space ∧ line = trimEnd line ++ space) ∧
      ∀ c, (trimEnd line).getLast? = some c → isSpace c = false) ∧
    (∀ text other : String, Relation.EqvGen Respelt text.toList other.toList →
      fragments (some text) = fragments (some other)) ∧
    ∀ text, fragments (some (normalized text)) = fragments (some text) := by
  refine ⟨?_, ?_, ?_, ?_, ?_⟩
  · exact fun body => ⟨rfl, fragments_eq_nil_iff, head?_fragments body, getLast?_fragments body⟩
  · intro text
    have hkept := withoutEdges_contentLines text.toList
    exact ⟨lines text.toList, contentLines text.toList, Text.lines_eq_iff.mp rfl,
      slice?_of_withoutEdges hkept, hkept, rfl, filter_fragments text⟩
  · exact fun line => ⟨Text.exists_trimEnd_append_blank line, fun _ hc => Text.isSpace_of_getLast?_trimEnd hc⟩
  · intro text other h
    rw [fragments, fragments, contentLines_of_eqvGen h]
  · intro text
    rw [fragments, fragments, normalized, String.toList_ofList, contentLines_intercalate]

/-- Blank lines above, of which one ends in a carriage return, and white space behind the
    text, which keeps its indentation. -/
theorem block_drops_blank_edges_return :
    fragments (some "  return x;") = fragments (some "\t\r\n\n  return x; \r\n") := by
  have habove : "\t\r\n\n  return x;".toList = ['\t', '\r', '\n'] ++ '\n' :: "  return x;".toList := by decide
  have hbelow : "\t\r\n\n  return x; \r\n".toList = "\t\r\n\n  return x;".toList ++ [' ', '\r', '\n'] := by decide
  obtain ⟨_, _, _, hspelling, _⟩ := block_drops_blank_edges "int x()"
  refine hspelling _ _ (.trans _ "\t\r\n\n  return x;".toList _ (.rel _ _ ?_) (.rel _ _ ?_))
  · rw [habove]
    exact .above (List.all_eq_true.mp rfl) _
  · rw [hbelow]
    exact .below (List.all_eq_true.mp rfl) _

end JavaSource.Body
