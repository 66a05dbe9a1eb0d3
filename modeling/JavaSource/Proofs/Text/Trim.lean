import JavaSource.Proofs.Collections.Edges
import JavaSource.Text.Blank

namespace JavaSource.Text

/-- A text that consists of white space, and may be empty. -/
def Blank (text : List Char) : Prop :=
  ∀ c ∈ text, isSpace c = true

/-- A text that neither begins nor ends with white space. -/
structure Trimmed (text : List Char) : Prop where
  head : ∀ c, text.head? = some c → isSpace c = false
  last : ∀ c, text.getLast? = some c → isSpace c = false

theorem Blank.nil : Blank [] := nofun

theorem Blank.space : Blank [' '] := List.all_eq_true.mp rfl

theorem Blank.carriageReturn : Blank ['\r'] := List.all_eq_true.mp rfl

theorem Blank.append {first second : List Char} (hfirst : Blank first) (hsecond : Blank second) :
    Blank (first ++ second) := by
  intro c hc
  rcases List.mem_append.mp hc with hc | hc
  · exact hfirst c hc
  · exact hsecond c hc

/-- A blank text has no other character than white space. -/
theorem Blank.notMem {text : List Char} (h : Blank text) {mark : Char} (hmark : isSpace mark = false) :
    mark ∉ text := by
  intro hmem
  rw [h mark hmem] at hmark
  cases hmark

/-- A text without white space anywhere is trimmed. -/
theorem Trimmed.of_forall {text : List Char} (h : ∀ c ∈ text, isSpace c = false) : Trimmed text :=
  ⟨fun c hc => h c (List.mem_of_head? hc), fun c hc => h c (List.mem_of_getLast? hc)⟩

theorem Trimmed.of_all {text : List Char} (h : text.all (! isSpace ·) = true) : Trimmed text :=
  .of_forall fun c hc => by simpa using List.all_eq_true.mp h c hc

/-- A trimmed text has no white space to take off in front. -/
theorem Trimmed.left_eq_nil {left text : List Char} (h : Trimmed (left ++ text)) (hleft : Blank left) :
    left = [] := by
  cases left with
  | nil => rfl
  | cons c left =>
    have hspace := hleft c List.mem_cons_self
    rw [h.head c rfl] at hspace
    cases hspace

/-- There is nothing blank behind a trimmed text. -/
theorem Trimmed.right_eq_nil {text right : List Char} (h : Trimmed (text ++ right))
    (hright : Blank right) : right = [] := by
  by_contra hne
  have hlast : (text ++ right).getLast? = some (right.getLast hne) := by
    rw [List.getLast?_append_of_ne_nil _ hne, List.getLast?_eq_some_getLast hne]
  have hspace := hright _ (List.getLast_mem hne)
  rw [h.last _ hlast] at hspace
  cases hspace

/-- Only the first character of the first part and the last one of the second part matter. -/
theorem Trimmed.append {first second : List Char} (hfirst : Trimmed first) (hne : first ≠ [])
    (hsecond : Trimmed second) (hne' : second ≠ []) (middle : List Char) :
    Trimmed (first ++ middle ++ second) := by
  refine ⟨?_, ?_⟩
  · intro c hc
    rw [List.append_assoc, List.head?_append_of_ne_nil _ hne] at hc
    exact hfirst.head c hc
  · intro c hc
    rw [List.getLast?_append_of_ne_nil _ hne'] at hc
    exact hsecond.last c hc

private theorem trimEnd_eq_rdropWhile (text : List Char) :
    trimEnd text = text.rdropWhile isSpace := rfl

/-- White space in front of a text is trimmed from its start. -/
theorem trimStart_append_of_blank {left : List Char} (hleft : Blank left) (text : List Char) :
    trimStart (left ++ text) = trimStart text :=
  List.dropWhile_append_of_pos hleft

theorem trimEnd_append_of_blank {right : List Char} (hright : Blank right) (text : List Char) :
    trimEnd (text ++ right) = trimEnd text := by
  have hreverse : ∀ c ∈ right.reverse, isSpace c = true := fun c hc =>
    hright c (List.mem_reverse.mp hc)
  unfold trimEnd
  rw [List.reverse_append, List.dropWhile_append_of_pos hreverse]

/-- A text that does not begin with white space has none to trim there. -/
theorem trimStart_eq_self {text : List Char} (h : ∀ c, text.head? = some c → isSpace c = false) :
    trimStart text = text := by
  cases text with
  | nil => rfl
  | cons c rest => exact List.dropWhile_cons_of_neg (by simp [h c rfl])

theorem trimEnd_eq_self {text : List Char} (h : ∀ c, text.getLast? = some c → isSpace c = false) :
    trimEnd text = text := by
  rw [trimEnd_eq_rdropWhile, List.rdropWhile_eq_self_iff]
  intro hne
  simp [h _ (List.getLast?_eq_some_getLast hne)]

/-- Trimming takes white space off both ends and nothing else. -/
theorem withoutEdges_trim (text : List Char) : WithoutEdges isSpace text (trim text) :=
  withoutEdges_dropWhile isSpace text

/-- Trimming takes blank texts off both ends. -/
theorem exists_blank_append_trim (text : List Char) :
    ∃ left right, Blank left ∧ Blank right ∧ text = left ++ trim text ++ right := by
  obtain ⟨left, right, htext, hleft, hright⟩ := (withoutEdges_trim text).within
  exact ⟨left, right, hleft, hright, htext⟩

/-- What is left is a part of the text. -/
theorem trim_isInfix (text : List Char) : trim text <:+: text := by
  obtain ⟨left, right, _, _, htext⟩ := exists_blank_append_trim text
  exact ⟨left, right, htext.symm⟩

/-- No white space is left at an end that was trimmed. -/
theorem isSpace_of_getLast?_trimEnd {text : List Char} {c : Char} (h : (trimEnd text).getLast? = some c) :
    isSpace c = false :=
  isFalse_of_getLast?_rdropWhile h

@[simp] theorem trimEnd_trimEnd (text : List Char) : trimEnd (trimEnd text) = trimEnd text :=
  trimEnd_eq_self fun _ hc => isSpace_of_getLast?_trimEnd hc

/-- Only of a blank text is nothing left once its end is trimmed. -/
theorem trimEnd_eq_nil_iff {text : List Char} : trimEnd text = [] ↔ Blank text :=
  List.rdropWhile_eq_nil_iff

/-- Only white space is lost at an end that is trimmed. -/
theorem exists_trimEnd_append_blank (text : List Char) : ∃ right, Blank right ∧ text = trimEnd text ++ right :=
  ⟨text.rtakeWhile isSpace, fun _ hc => List.mem_rtakeWhile_imp hc, List.rdropWhile_append_rtakeWhile.symm⟩

/-- What trimming leaves is trimmed. -/
theorem trimmed_trim (text : List Char) : Trimmed (trim text) :=
  ⟨(withoutEdges_trim text).head, (withoutEdges_trim text).last⟩

/-- White space around a trimmed text is what trimming takes off. -/
theorem trim_surrounded {left text right : List Char} (hleft : Blank left) (htrimmed : Trimmed text)
    (hright : Blank right) : trim (left ++ text ++ right) = text := by
  by_cases hnil : text = []
  · subst hnil
    have hall : Blank (left ++ [] ++ right) := (hleft.append .nil).append hright
    have hstart : trimStart (left ++ [] ++ right) = [] :=
      List.dropWhile_eq_nil_iff.mpr hall
    rw [trim, hstart]
    rfl
  · rw [trim, List.append_assoc, trimStart_append_of_blank hleft]
    have hstart : trimStart (text ++ right) = text ++ right := by
      apply trimStart_eq_self
      intro c hc
      rw [List.head?_append_of_ne_nil _ hnil] at hc
      exact htrimmed.head c hc
    rw [hstart, trimEnd_append_of_blank hright, trimEnd_eq_self htrimmed.last]

/-- A trimmed text is left as it is. -/
theorem Trimmed.trim_eq {text : List Char} (h : Trimmed text) : trim text = text := by
  simpa using trim_surrounded .nil h .nil

@[simp] theorem trim_trim (text : List Char) : trim (trim text) = trim text :=
  (trimmed_trim text).trim_eq

/-- Blank text around any text does not change what is left after trimming. -/
theorem trim_append_of_blank {left right : List Char} (hleft : Blank left) (hright : Blank right)
    (text : List Char) : trim (left ++ text ++ right) = trim text := by
  obtain ⟨before, after, hbefore, hafter, htext⟩ := exists_blank_append_trim text
  have hsurrounded := trim_surrounded (hleft.append hbefore) (trimmed_trim text) (hafter.append hright)
  rw [← hsurrounded]
  conv_lhs => rw [htext]
  simp

theorem trim_eq_nil_iff {text : List Char} : trim text = [] ↔ Blank text :=
  (withoutEdges_trim text).eq_nil_iff

/-- Only white space is lost by trimming. -/
theorem mem_trim {text : List Char} {c : Char} (hc : c ∈ text) (hspace : isSpace c = false) :
    c ∈ trim text := by
  obtain ⟨left, right, hleft, hright, htext⟩ := exists_blank_append_trim text
  rw [htext] at hc
  rcases List.mem_append.mp hc with hc | hc
  · rcases List.mem_append.mp hc with hc | hc
    · simp [hleft c hc] at hspace
    · exact hc
  · simp [hright c hc] at hspace

/-- A character that is not white space outlasts the trimming. -/
theorem trim_ne_nil_of_mem {text : List Char} {c : Char} (hc : c ∈ text) (hspace : isSpace c = false) :
    trim text ≠ [] :=
  List.ne_nil_of_mem (mem_trim hc hspace)

end JavaSource.Text

namespace JavaSource

@[simp] theorem isBlank_empty : isBlank "" = true := rfl

/-- A string is blank if its characters are. -/
theorem isBlank_iff_blank {s : String} : isBlank s = true ↔ Text.Blank s.toList := by
  rw [isBlank, List.isEmpty_iff, Text.trim_eq_nil_iff]

end JavaSource
